import HttpTranscoding.FieldPath

/-!
# How field paths lie to each other

A path that leads towards another stops at a field in the middle of it
(`FieldPath.exists_append_of_isStrictPrefixOf`), and any field in the middle is where such
a path stops (`FieldPath.append_isStrictPrefixOf`). What is written as a path of one element
is a path of one field (`FieldPath.exists_single_of_resolve`).
-/

namespace HttpTranscoding.FieldPath

/-- The path up to a field `g` in the middle of `q` leads towards `q`. -/
theorem append_isStrictPrefixOf {init rest : List Field} {g : Field} {q : FieldPath}
    (h : q.fields = init ++ g :: rest) (hne : rest ≠ []) :
    isStrictPrefixOf ⟨init ++ [g], by simp⟩ q := by
  refine isStrictPrefixOf_iff.mpr ⟨⟨rest, by simp [h]⟩, ?_⟩
  rintro rfl
  exact hne (by simpa using h)

theorem type_append {init : List Field} {g : Field} :
    type ⟨init ++ [g], by simp⟩ = g.type := by
  simp [type, last]

theorem last_cons (f : Field) (p : FieldPath) : (cons f p).last = p.last :=
  List.getLast_cons p.ne_nil

theorem type_cons (f : Field) (p : FieldPath) : (cons f p).type = p.type :=
  congrArg Field.type (last_cons f p)

theorem covers_iff_eq_or {p q : FieldPath} : p.covers q ↔ p = q ∨ p.isStrictPrefixOf q := by
  simp [covers]

theorem length_lt_of_isStrictPrefixOf {p q : FieldPath} (h : p.isStrictPrefixOf q) :
    p.fields.length < q.fields.length := by
  simp only [isStrictPrefixOf, Bool.and_eq_true, decide_eq_true_eq] at h
  exact h.1

theorem not_isStrictPrefixOf_single {p : FieldPath} {f : Field} :
    ¬p.isStrictPrefixOf (single f) := by
  intro h
  have hpos : 0 < p.fields.length := List.length_pos_iff.mpr p.ne_nil
  have hlt : p.fields.length < 1 := length_lt_of_isStrictPrefixOf h
  omega

theorem dropLast_append_last (p : FieldPath) : p.fields.dropLast ++ [p.last] = p.fields :=
  List.dropLast_concat_getLast p.ne_nil

/-- A path that leads towards another ends at a field in the middle of it. -/
theorem exists_append_of_isStrictPrefixOf {p q : FieldPath} (h : p.isStrictPrefixOf q) :
    ∃ rest, rest ≠ [] ∧ q.fields = p.fields.dropLast ++ p.last :: rest := by
  obtain ⟨⟨rest, hrest⟩, hne⟩ := isStrictPrefixOf_iff.mp h
  refine ⟨rest, ?_, ?_⟩
  · rintro rfl
    exact hne (FieldPath.ext (by simpa using hrest))
  · rw [← hrest, ← dropLast_append_last p]
    simp

theorem dropLast_append_cons {init rest : List Field} {g : Field} (hne : rest ≠ []) :
    (init ++ g :: rest).dropLast = init ++ g :: rest.dropLast := by
  rw [List.dropLast_append_of_ne_nil (by simp), List.dropLast_cons_of_ne_nil hne]

theorem elements_of_isSingleElement {path : String} (h : isSingleElement path) :
    elements path = [path] := by
  have hdot : '.' ∉ path.toList := by simpa [isSingleElement] using h
  rw [elements, List.splitOn_eq_singleton hdot, List.map_singleton, String.ofList_toList]

/-- A path written without a dot is a single field of the message. -/
theorem exists_single_of_resolve {s : Schema} {m : MessageRef} {path : String}
    {p : FieldPath} (hsingle : isSingleElement path) (h : resolve s m path = .ok p) :
    ∃ f, p = .single f := by
  simp only [resolve, elements_of_isSingleElement hsingle, List.head_cons, List.tail_cons,
    follow] at h
  cases hf : step s path m.fullName path with
  | error e => simp [hf, Except.map] at h
  | ok f =>
    simp only [hf, Except.map, Except.ok.injEq] at h
    exact ⟨f, h.symm⟩

end HttpTranscoding.FieldPath
