import HttpTranscoding.Proofs.Except
import HttpTranscoding.Proofs.FieldPath
import HttpTranscoding.Proofs.Text.Pieces

/-!
# How field paths are written

What the text of a path has to do with the paths that it resolves to. Elements that are equal
without the blanks around them name one field of a message, so of two paths from one message
the texts already tell whether one leads towards the other.

* `map_name_of_resolve`, `prefix_iff_of_resolve`: a path goes through the fields that its
  elements name, and paths with a common beginning are written with one;
* `text_of_resolve`, `covers_iff_of_resolve`: the same of texts without blanks, such as the
  variables of path templates have (`PathTemplate.plain_of_mem_namesIn`).
-/

namespace HttpTranscoding.FieldPath

/-! ## Elements -/

theorem dot_not_mem_of_mem_elements {path element : String} (h : element ∈ elements path) :
    '.' ∉ element.toList := by
  obtain ⟨piece, hpiece, rfl⟩ := List.mem_map.mp h
  rw [String.toList_ofList]
  exact Text.not_mem_of_mem_splitOn hpiece

theorem length_elements (path : String) :
    (elements path).length = path.toList.count '.' + 1 := by
  rw [elements, List.length_map, Text.length_splitOn]

theorem elements_append (before rest : String) :
    elements (before ++ "." ++ rest) = elements before ++ elements rest := by
  have hdot : (before ++ "." ++ rest).toList = before.toList ++ '.' :: rest.toList := by simp
  rw [elements, hdot, List.splitOn_append_cons_self, List.map_append]
  rfl

theorem intercalate_elements (path : String) : ".".intercalate (elements path) = path := by
  have htexts : (elements path).map String.toList = path.toList.splitOn '.' := by
    simp [elements, Function.comp_def]
  rw [← String.toList_inj, String.toList_intercalate, htexts]
  exact List.intercalate_splitOn '.'

theorem elements_intercalate {names : List String} (hne : names ≠ [])
    (hdot : ∀ name ∈ names, '.' ∉ name.toList) : elements (".".intercalate names) = names := by
  have hpieces : ∀ piece ∈ names.map String.toList, '.' ∉ piece := by simpa using hdot
  have hsplit : (['.'].intercalate (names.map String.toList)).splitOn '.' =
      names.map String.toList := List.splitOn_intercalate '.' hpieces (by simpa using hne)
  rw [elements, String.toList_intercalate]
  exact (congrArg (List.map String.ofList) hsplit).trans (by simp)

theorem map_stripped_elements {path : String} (h : ∀ c ∈ path.toList, ¬Text.isBlank c) :
    (elements path).map Text.stripped = elements path := by
  refine (List.map_congr_left fun element helement => ?_).trans (List.map_id _)
  obtain ⟨piece, hpiece, rfl⟩ := List.mem_map.mp helement
  have hjoined : ['.'].intercalate (path.toList.splitOn '.') = path.toList :=
    List.intercalate_splitOn '.'
  refine Text.stripped_of_not_isBlank fun c hc => h c ?_
  rw [String.toList_ofList] at hc
  rw [← hjoined]
  exact Text.mem_intercalate_of_mem hpiece hc

/-! ## Paths that are resolved -/

variable {s : Schema} {m : MessageRef} {path path' : String} {p q : FieldPath}

theorem step_eq_ok_iff {message element : String} {f : Field} :
    step s path message element = .ok f ↔ s.field? message (Text.stripped element) = some f := by
  unfold step
  cases s.field? message (Text.stripped element) <;> simp

theorem follow_singleton_eq_ok_iff {message element : String} :
    follow s path message element [] = .ok p ↔
      ∃ f, s.field? message (Text.stripped element) = some f ∧ p = single f := by
  simp only [follow, map_eq_ok_iff, step_eq_ok_iff, eq_comm (a := p)]

theorem follow_cons_eq_ok_iff {message element next : String} {rest : List String} :
    follow s path message element (next :: rest) = .ok p ↔
      ∃ f t q, s.field? message (Text.stripped element) = some f ∧ f.type.target = some t ∧
        follow s path t.fullName next rest = .ok q ∧ p = cons f q := by
  simp only [follow, bind_eq_ok_iff, step_eq_ok_iff]
  constructor
  · rintro ⟨f, hf, h⟩
    cases ht : f.type.target with
    | none => simp [ht] at h
    | some t =>
      rw [ht] at h
      obtain ⟨q, hq, rfl⟩ := map_eq_ok_iff.mp h
      exact ⟨f, t, q, hf, ht, hq, rfl⟩
  · rintro ⟨f, t, q, hf, ht, hq, rfl⟩
    refine ⟨f, hf, ?_⟩
    rw [ht]
    exact map_eq_ok_iff.mpr ⟨q, hq, rfl⟩

theorem name_of_field? {message name : String} {f : Field} (h : s.field? message name = some f) :
    f.name = name := by
  simpa using List.find?_some h

theorem map_name_of_follow {message element : String} {rest : List String}
    (h : follow s path message element rest = .ok p) :
    p.fields.map (·.name) = (element :: rest).map Text.stripped := by
  induction rest generalizing message element p with
  | nil =>
    obtain ⟨f, hf, rfl⟩ := follow_singleton_eq_ok_iff.mp h
    simp [single, name_of_field? hf]
  | cons next rest ih =>
    obtain ⟨f, t, q, hf, -, hq, rfl⟩ := follow_cons_eq_ok_iff.mp h
    rw [cons, List.map_cons, ih hq, name_of_field? hf]
    rfl

/-- Elements that begin alike are followed through the same fields for as long. -/
theorem prefix_of_follow {message element element' : String} {rest rest' : List String}
    (hp : follow s path message element rest = .ok p)
    (hq : follow s path' message element' rest' = .ok q)
    (h : (element :: rest).map Text.stripped <+: (element' :: rest').map Text.stripped) :
    p.fields <+: q.fields := by
  induction rest generalizing message element element' rest' p q with
  | nil =>
    obtain ⟨f, hf, rfl⟩ := follow_singleton_eq_ok_iff.mp hp
    rw [List.map_cons, List.map_cons, List.cons_prefix_cons] at h
    cases rest' with
    | nil =>
      obtain ⟨f', hf', rfl⟩ := follow_singleton_eq_ok_iff.mp hq
      rw [h.1, hf'] at hf
      exact Option.some.inj hf ▸ List.prefix_rfl
    | cons next' rest' =>
      obtain ⟨f', t, q, hf', -, -, rfl⟩ := follow_cons_eq_ok_iff.mp hq
      rw [h.1, hf'] at hf
      exact Option.some.inj hf ▸ List.cons_prefix_cons.mpr ⟨rfl, List.nil_prefix⟩
  | cons next rest ih =>
    obtain ⟨f, t, p, hf, ht, hbelow, rfl⟩ := follow_cons_eq_ok_iff.mp hp
    rw [List.map_cons, List.map_cons (l := rest'), List.cons_prefix_cons] at h
    cases rest' with
    | nil => simp at h
    | cons next' rest' =>
      obtain ⟨f', t', q, hf', ht', hbelow', rfl⟩ := follow_cons_eq_ok_iff.mp hq
      rw [h.1, hf'] at hf
      obtain rfl := Option.some.inj hf
      obtain rfl := Option.some.inj (ht.symm.trans ht')
      exact List.cons_prefix_cons.mpr ⟨rfl, ih hbelow hbelow' h.2⟩

/-- What is around the names does not matter to where they lead, and neither does the text that
they are quoted from. -/
theorem follow_of_map_stripped {message element element' : String} {rest rest' : List String}
    (hp : follow s path message element rest = .ok p)
    (h : (element' :: rest').map Text.stripped = (element :: rest).map Text.stripped) :
    follow s path' message element' rest' = .ok p := by
  rw [List.map_cons, List.map_cons, List.cons.injEq] at h
  induction rest generalizing message element element' rest' p with
  | nil =>
    obtain rfl : rest' = [] := by simpa using h.2
    obtain ⟨f, hf, rfl⟩ := follow_singleton_eq_ok_iff.mp hp
    exact follow_singleton_eq_ok_iff.mpr ⟨f, h.1 ▸ hf, rfl⟩
  | cons next rest ih =>
    obtain ⟨f, t, q, hf, ht, hq, rfl⟩ := follow_cons_eq_ok_iff.mp hp
    obtain ⟨next', rest', rfl, hnext, hrest⟩ := List.map_eq_cons_iff.mp h.2
    exact follow_cons_eq_ok_iff.mpr ⟨f, t, q, h.1 ▸ hf, ht, ih hq ⟨hnext, hrest⟩, rfl⟩

theorem resolve_eq_follow {element : String} {rest : List String}
    (h : elements path = element :: rest) :
    resolve s m path = follow s path m.fullName element rest := by
  simp only [resolve, h, List.head_cons, List.tail_cons]

theorem follow_of_resolve (h : resolve s m path = .ok p) : ∃ element rest,
    elements path = element :: rest ∧ follow s path m.fullName element rest = .ok p :=
  ⟨_, _, (List.cons_head_tail (elements_ne_nil path)).symm, h⟩

/-- A path goes through the fields that its elements name. -/
theorem map_name_of_resolve (h : resolve s m path = .ok p) :
    p.fields.map (·.name) = (elements path).map Text.stripped := by
  obtain ⟨element, rest, helements, hfollow⟩ := follow_of_resolve h
  rw [helements, map_name_of_follow hfollow]

theorem prefix_iff_of_resolve (hp : resolve s m path = .ok p) (hq : resolve s m path' = .ok q) :
    p.fields <+: q.fields ↔
      (elements path).map Text.stripped <+: (elements path').map Text.stripped := by
  constructor
  · intro h
    rw [← map_name_of_resolve hp, ← map_name_of_resolve hq]
    exact h.map _
  · obtain ⟨element, rest, helements, hfollow⟩ := follow_of_resolve hp
    obtain ⟨element', rest', helements', hfollow'⟩ := follow_of_resolve hq
    rw [helements, helements']
    exact prefix_of_follow hfollow hfollow'

/-- A path without blanks is written as it was read. -/
theorem text_of_resolve (hblank : ∀ c ∈ path.toList, ¬Text.isBlank c)
    (h : resolve s m path = .ok p) : p.text = path := by
  rw [text, map_name_of_resolve h, map_stripped_elements hblank, intercalate_elements]

/-- Of paths without blanks, one covers another if its elements are the first of the other. -/
theorem covers_iff_of_resolve (hblank : ∀ c ∈ path.toList, ¬Text.isBlank c)
    (hblank' : ∀ c ∈ path'.toList, ¬Text.isBlank c) (hp : resolve s m path = .ok p)
    (hq : resolve s m path' = .ok q) : p.covers q ↔ elements path <+: elements path' := by
  rw [covers_iff, prefix_iff_of_resolve hp hq, map_stripped_elements hblank,
    map_stripped_elements hblank']

theorem map_text_of_mapM {names : List String} {paths : List FieldPath}
    (hblank : ∀ name ∈ names, ∀ c ∈ name.toList, ¬Text.isBlank c)
    (h : names.mapM (resolve s m) = .ok paths) : paths.map (·.text) = names := by
  rw [mapM_eq_ok_iff] at h
  induction h with
  | nil => rfl
  | cons hname _ ih =>
    rw [List.forall_mem_cons] at hblank
    rw [List.map_cons, text_of_resolve hblank.1 hname, ih hblank.2]

end HttpTranscoding.FieldPath
