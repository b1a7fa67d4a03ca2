import HttpTranscoding.Proofs.Binding.Resolution

/-!
# Resolving what is written

The text of a resolved path is what was resolved, without the blanks around its names, and it
resolves to the same path. So paths from one message are told apart by their texts.

* `elements_text_of_resolve`, `resolve_text`: the text of a resolved path;
* `eq_iff_of_resolve`, `isStrictPrefixOf_iff_of_resolve`: how paths lie to each other;
* `resolve_text_exact`: both, and the texts of path variables.
-/

namespace HttpTranscoding.FieldPath

variable {s : Schema} {m : MessageRef} {path path' : String} {p q : FieldPath}

theorem text_eq_of_resolve (h : resolve s m path = .ok p) :
    p.text = ".".intercalate ((elements path).map Text.stripped) := by
  rw [text, map_name_of_resolve h]

/-- The names of a resolved path have no dots, so its text has them as its elements. -/
theorem elements_text_of_resolve (h : resolve s m path = .ok p) :
    elements p.text = (elements path).map Text.stripped := by
  rw [text_eq_of_resolve h]
  refine elements_intercalate (by simpa using elements_ne_nil path) fun name hname hdot => ?_
  obtain ⟨element, helement, rfl⟩ := List.mem_map.mp hname
  exact dot_not_mem_of_mem_elements helement (Text.mem_of_mem_stripped hdot)

/-- A path leads where its text leads. -/
theorem resolve_text (h : resolve s m path = .ok p) : resolve s m p.text = .ok p := by
  obtain ⟨element, rest, helements, hfollow⟩ := follow_of_resolve h
  have htext : elements p.text = Text.stripped element :: rest.map Text.stripped := by
    rw [elements_text_of_resolve h, helements, List.map_cons]
  rw [resolve_eq_follow htext]
  refine follow_of_map_stripped hfollow ?_
  simp only [List.map_cons, List.map_map, Function.comp_def, Text.stripped_stripped]

theorem eq_iff_text_eq_of_resolve (hp : resolve s m path = .ok p)
    (hq : resolve s m path' = .ok q) : p = q ↔ p.text = q.text := by
  refine ⟨congrArg text, fun h => ?_⟩
  have htext : resolve s m p.text = .ok q := h ▸ resolve_text hq
  exact Except.ok.inj ((resolve_text hp).symm.trans htext)

theorem eq_iff_of_resolve (hp : resolve s m path = .ok p) (hq : resolve s m path' = .ok q) :
    p = q ↔ (elements path).map Text.stripped = (elements path').map Text.stripped := by
  rw [eq_iff_text_eq_of_resolve hp hq]
  constructor
  · intro h
    rw [← elements_text_of_resolve hp, ← elements_text_of_resolve hq, h]
  · intro h
    rw [text_eq_of_resolve hp, text_eq_of_resolve hq, h]

theorem isStrictPrefixOf_iff_of_resolve (hp : resolve s m path = .ok p)
    (hq : resolve s m path' = .ok q) : p.isStrictPrefixOf q ↔
      (elements path).map Text.stripped <+: (elements path').map Text.stripped ∧
        (elements path).map Text.stripped ≠ (elements path').map Text.stripped := by
  rw [isStrictPrefixOf_iff, prefix_iff_of_resolve hp hq, Ne, eq_iff_of_resolve hp hq]

/-- A resolved path is written with the elements that it was resolved from, each without the
blanks around it, and what is written resolves to the path. Of two paths from one message, the
texts tell whether they are the same, and the elements whether one leads towards the other. The
paths of a template's variables are written as the variables are. -/
theorem resolve_text_exact (s : Schema) (m : MessageRef) :
    (∀ (path : String) (p : FieldPath), resolve s m path = .ok p →
      p.text = ".".intercalate ((elements path).map Text.stripped) ∧
        resolve s m p.text = .ok p) ∧
    (∀ (path path' : String) (p q : FieldPath), resolve s m path = .ok p →
      resolve s m path' = .ok q → (p = q ↔ p.text = q.text) ∧
        (p.isStrictPrefixOf q ↔
          (elements path).map Text.stripped <+: (elements path').map Text.stripped ∧
            (elements path).map Text.stripped ≠ (elements path').map Text.stripped)) ∧
    ∀ (rule : HttpRule) (b : Binding), Binding.resolve s m rule = .ok b →
      b.pathFields.map (·.text) = PathTemplate.namesIn rule.template := by
  refine ⟨fun path p hp => ⟨text_eq_of_resolve hp, resolve_text hp⟩,
    fun path path' p q hp hq => ⟨eq_iff_text_eq_of_resolve hp hq, ?_⟩,
    fun rule b => Binding.map_text_pathFields⟩
  exact isStrictPrefixOf_iff_of_resolve hp hq

end HttpTranscoding.FieldPath
