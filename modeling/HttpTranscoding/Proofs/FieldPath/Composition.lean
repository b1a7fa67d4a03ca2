import HttpTranscoding.Proofs.FieldPath.Text
import HttpTranscoding.Proofs.Schema.Chain

/-!
# How dotted paths are followed

A dotted path that is cut at a dot is followed in two parts: the first has to lead to a field
that holds messages, and the second leads on from such a message (`follow_append`). A path
therefore fails at one of its elements, to which those before it lead, and it is this element
that the error tells of (`FailsWith`).

* `resolve_append_eq_ok_iff`, `resolve_single_eq_ok_iff`: paths that are put together from
  others, and paths of one element;
* `chain_of_resolve`: where a path may lead;
* `resolve_eq_error_iff`: where a path fails;
* `resolve_exact`: all of these.
-/

namespace HttpTranscoding.FieldPath

variable {s : Schema} {m : MessageRef} {path message element : String} {p q r : FieldPath}

/-! ## Cutting a path -/

/-- The path that goes on along `q`. -/
def append (p q : FieldPath) : FieldPath :=
  ⟨p.fields ++ q.fields, by simp [p.ne_nil]⟩

/-- The path through the named fields that begins with `p`. -/
def followFrom (s : Schema) (path : String) (p : FieldPath) (next : String)
    (rest : List String) : Except BindingError FieldPath :=
  match p.type.target with
  | none => .error (.notMessage p.last.name path)
  | some target => (follow s path target.fullName next rest).map p.append

theorem followFrom_cons (s : Schema) (path : String) (f : Field) (p : FieldPath) (next : String)
    (rest : List String) :
    followFrom s path (cons f p) next rest = (followFrom s path p next rest).map (cons f) := by
  unfold followFrom
  rw [type_cons, last_cons]
  cases p.type.target with
  | none => rfl
  | some t =>
    dsimp only
    cases follow s path t.fullName next rest <;> rfl

/-- What is followed after some elements is followed from where they lead. -/
theorem follow_append (s : Schema) (path message element : String) (before : List String)
    (next : String) (rest : List String) :
    follow s path message element (before ++ next :: rest) =
      follow s path message element before >>= (followFrom s path · next rest) := by
  induction before generalizing message element with
  | nil =>
    rw [List.nil_append, follow, follow]
    cases step s path message element <;> rfl
  | cons second before ih =>
    rw [List.cons_append, follow, follow]
    cases step s path message element with
    | error e => rfl
    | ok f =>
      cases ht : f.type.target with
      | none => simp [ht, bind, Except.bind]
      | some t =>
        simp only [ht, ih, bind, Except.bind]
        cases follow s path t.fullName second before with
        | error e => rfl
        | ok p => exact (followFrom_cons s path f p next rest).symm

theorem followFrom_eq_ok_iff {next : String} {rest : List String} :
    followFrom s path p next rest = .ok r ↔ ∃ t q, p.type.target = some t ∧
      follow s path t.fullName next rest = .ok q ∧ p.append q = r := by
  unfold followFrom
  cases p.type.target <;> simp [map_eq_ok_iff]

/-- A path that is cut at a dot leads along its first part and then along the second, which is
resolved in the message that the first part leads to. -/
theorem resolve_append_eq_ok_iff {before rest : String} :
    resolve s m (before ++ "." ++ rest) = .ok r ↔
      ∃ p t q, resolve s m before = .ok p ∧ p.type.target = some t ∧ resolve s t rest = .ok q ∧
        p.append q = r := by
  obtain ⟨first, front, hfront⟩ := List.exists_cons_of_ne_nil (elements_ne_nil before)
  obtain ⟨next, back, hback⟩ := List.exists_cons_of_ne_nil (elements_ne_nil rest)
  have hsplit : elements (before ++ "." ++ rest) = first :: (front ++ next :: back) := by
    rw [elements_append, hfront, hback, List.cons_append]
  rw [resolve_eq_follow hsplit, resolve_eq_follow hfront, follow_append, bind_eq_ok_iff]
  simp only [followFrom_eq_ok_iff, resolve_eq_follow hback]
  constructor
  · rintro ⟨p, hp, t, q, ht, hq, rfl⟩
    exact ⟨p, t, q, follow_of_map_stripped hp rfl, ht, follow_of_map_stripped hq rfl, rfl⟩
  · rintro ⟨p, t, q, hp, ht, hq, rfl⟩
    exact ⟨p, follow_of_map_stripped hp rfl, t, q, ht, follow_of_map_stripped hq rfl, rfl⟩

/-! ## One element -/

theorem field?_eq_some_iff {name : String} {f : Field} :
    s.field? message name = some f ↔ ∃ before after, s.fieldsOf message = before ++ f :: after ∧
      f.name = name ∧ ∀ g ∈ before, g.name ≠ name := by
  rw [Schema.field?, List.find?_eq_some_iff_append]
  simp only [decide_eq_true_eq, Bool.not_eq_true', decide_eq_false_iff_not]
  constructor
  · rintro ⟨hname, before, after, hsplit, hbefore⟩
    exact ⟨before, after, hsplit, hname, hbefore⟩
  · rintro ⟨before, after, hsplit, hname, hbefore⟩
    exact ⟨hname, before, after, hsplit, hbefore⟩

theorem field?_eq_none_iff {name : String} :
    s.field? message name = none ↔ ∀ f ∈ s.fieldsOf message, f.name ≠ name := by
  simp [Schema.field?]

theorem resolve_single_eq_ok_iff (h : isSingleElement path) :
    resolve s m path = .ok p ↔
      ∃ f, s.field? m.fullName (Text.stripped path) = some f ∧ p = single f := by
  rw [resolve_eq_follow (elements_of_isSingleElement h), follow_singleton_eq_ok_iff]

/-! ## Where a path may lead -/

theorem chain_of_follow {rest : List String} (h : follow s path message element rest = .ok p) :
    s.Chain message p.fields := by
  induction rest generalizing message element p with
  | nil =>
    obtain ⟨f, hf, rfl⟩ := follow_singleton_eq_ok_iff.mp h
    exact .last (List.mem_of_find?_eq_some hf)
  | cons next rest ih =>
    obtain ⟨f, t, q, hf, ht, hq, rfl⟩ := follow_cons_eq_ok_iff.mp h
    exact .cons (List.mem_of_find?_eq_some hf) ht (ih hq)

theorem chain_of_resolve (h : resolve s m path = .ok p) : s.Chain m.fullName p.fields := by
  obtain ⟨element, rest, -, hfollow⟩ := follow_of_resolve h
  exact chain_of_follow hfollow

theorem length_fields_of_resolve (h : resolve s m path = .ok p) :
    p.fields.length = path.toList.count '.' + 1 := by
  have hnames := congrArg List.length (map_name_of_resolve h)
  rwa [List.length_map, List.length_map, length_elements] at hnames

/-! ## Where a path fails -/

/-- The error tells of an element of the path that those before it lead to: there is no field
of that name in the message where it is looked for, or nowhere to look for it. -/
inductive FailsWith (s : Schema) (m : MessageRef) (path : String) : BindingError → Prop
  | first {element : String} {after : List String} (split : elements path = element :: after)
      (unknown : ∀ f ∈ s.fieldsOf m.fullName, f.name ≠ Text.stripped element) :
    FailsWith s m path (.unknownField element m.fullName path)
  | inside {before element : String} {after : List String} {p : FieldPath} {t : MessageRef}
      (split : elements path = elements before ++ element :: after)
      (leads : resolve s m before = .ok p) (target : p.type.target = some t)
      (unknown : ∀ f ∈ s.fieldsOf t.fullName, f.name ≠ Text.stripped element) :
    FailsWith s m path (.unknownField element t.fullName path)
  | beyond {before element : String} {after : List String} {p : FieldPath}
      (split : elements path = elements before ++ element :: after)
      (leads : resolve s m before = .ok p) (target : p.type.target = none) :
    FailsWith s m path (.notMessage p.last.name path)

theorem follow_of_unknown (rest : List String)
    (h : ∀ f ∈ s.fieldsOf message, f.name ≠ Text.stripped element) :
    follow s path message element rest = .error (.unknownField element message path) := by
  have hstep : step s path message element = .error (.unknownField element message path) := by
    rw [step, field?_eq_none_iff.mpr h]
  cases rest <;> rw [follow, hstep] <;> rfl

/-- If following elements fails, it does so at the first or after some that can be followed. -/
theorem exists_of_follow_eq_error {rest : List String} {e : BindingError}
    (h : follow s path message element rest = .error e) :
    follow s path message element [] = .error e ∨
      ∃ before next after p, rest = before ++ next :: after ∧
        follow s path message element before = .ok p ∧ followFrom s path p next [] = .error e := by
  induction rest using List.reverseRecOn with
  | nil => exact .inl h
  | append_singleton before next ih =>
    rw [follow_append, bind_eq_error_iff] at h
    obtain hbefore | ⟨p, hp, hnext⟩ := h
    · obtain hfirst | ⟨front, second, after, p, rfl, hp, hsecond⟩ := ih hbefore
      · exact .inl hfirst
      · exact .inr ⟨front, second, after ++ [next], p, by simp, hp, hsecond⟩
    · exact .inr ⟨before, next, [], p, rfl, hp, hnext⟩

theorem follow_singleton_eq_error_iff {e : BindingError} :
    follow s path message element [] = .error e ↔
      (∀ f ∈ s.fieldsOf message, f.name ≠ Text.stripped element) ∧
        e = .unknownField element message path := by
  rw [follow, map_eq_error_iff, step, ← field?_eq_none_iff]
  cases s.field? message (Text.stripped element) <;> simp [eq_comm]

/-- The first elements of a path are those of a path. -/
theorem exists_elements_eq {front back : List String} (hne : front ≠ [])
    (h : elements path = front ++ back) : ∃ before, elements before = front := by
  refine ⟨".".intercalate front, elements_intercalate hne fun name hname => ?_⟩
  have hmem : name ∈ elements path := h ▸ List.mem_append_left back hname
  exact dot_not_mem_of_mem_elements hmem

/-- A path is followed from where its first elements lead. -/
theorem resolve_eq_followFrom {before next : String} {after : List String}
    (split : elements path = elements before ++ next :: after)
    (leads : resolve s m before = .ok p) : resolve s m path = followFrom s path p next after := by
  obtain ⟨first, front, hfront⟩ := List.exists_cons_of_ne_nil (elements_ne_nil before)
  rw [resolve_eq_follow hfront] at leads
  rw [hfront, List.cons_append] at split
  rw [resolve_eq_follow split, follow_append, follow_of_map_stripped leads rfl]
  rfl

/-- A path fails at the first element that leads nowhere. -/
theorem resolve_eq_error_iff {e : BindingError} :
    resolve s m path = .error e ↔ FailsWith s m path e := by
  constructor
  · intro h
    obtain ⟨element, rest, helements⟩ := List.exists_cons_of_ne_nil (elements_ne_nil path)
    rw [resolve_eq_follow helements] at h
    obtain hfirst | ⟨front, next, after, p, rfl, hp, hnext⟩ := exists_of_follow_eq_error h
    · obtain ⟨hunknown, rfl⟩ := follow_singleton_eq_error_iff.mp hfirst
      exact .first helements hunknown
    · obtain ⟨before, hbefore⟩ := exists_elements_eq (List.cons_ne_nil element front) helements
      have hsplit : elements path = elements before ++ next :: after := by
        rw [helements, hbefore, List.cons_append]
      have hleads : resolve s m before = .ok p := by
        rw [resolve_eq_follow hbefore]
        exact follow_of_map_stripped hp rfl
      unfold followFrom at hnext
      cases ht : p.type.target with
      | none =>
        rw [ht] at hnext
        obtain rfl := Except.error.inj hnext
        exact .beyond hsplit hleads ht
      | some t =>
        rw [ht, map_eq_error_iff] at hnext
        obtain ⟨hunknown, rfl⟩ := follow_singleton_eq_error_iff.mp hnext
        exact .inside hsplit hleads ht hunknown
  · rintro (⟨split, unknown⟩ | ⟨split, leads, target, unknown⟩ | ⟨split, leads, target⟩)
    · rw [resolve_eq_follow split, follow_of_unknown _ unknown]
    · rw [resolve_eq_followFrom split leads, followFrom, target]
      exact map_eq_error_iff.mpr (follow_of_unknown _ unknown)
    · rw [resolve_eq_followFrom split leads, followFrom, target]

/-! ## Dotted paths -/

/-- Paths are resolved exactly as they are written. A path that is cut at a dot resolves if its
first part leads to a field that holds messages and its second part resolves in such a message,
and then leads along both. A path of one element leads to the first field of that name, blanks
around it aside, if there is one. A path has one more field than dots, and each field belongs
to the message that the one before it holds. Otherwise the error tells of the first element that
leads nowhere, and quotes the path. -/
theorem resolve_exact (s : Schema) (m : MessageRef) :
    (∀ (before rest : String) (r : FieldPath), resolve s m (before ++ "." ++ rest) = .ok r ↔
      ∃ p t q, resolve s m before = .ok p ∧ p.last.type.target = some t ∧
        resolve s t rest = .ok q ∧ r.fields = p.fields ++ q.fields) ∧
    (∀ element : String, isSingleElement element →
      ((∃ p, resolve s m element = .ok p) ↔
        ∃ f ∈ s.fieldsOf m.fullName, f.name = Text.stripped element) ∧
      ∀ p, resolve s m element = .ok p → ∃ f before after, p.fields = [f] ∧
        s.fieldsOf m.fullName = before ++ f :: after ∧ f.name = Text.stripped element ∧
        ∀ g ∈ before, g.name ≠ Text.stripped element) ∧
    (∀ (path : String) (p : FieldPath), resolve s m path = .ok p →
      p.fields.length = path.toList.count '.' + 1 ∧ s.Chain m.fullName p.fields) ∧
    (∀ (path : String) (e : BindingError),
      resolve s m path = .error e ↔ FailsWith s m path e) ∧
    (∀ element message path : String, (BindingError.unknownField element message path).text =
      "No field '" ++ element ++ "' in message '" ++ message ++ "' (path '" ++ path ++ "')") ∧
    ∀ field path : String, (BindingError.notMessage field path).text =
      "Field path '" ++ path ++ "' continues past non-message field '" ++ field ++ "'" := by
  refine ⟨fun before rest r => ?_, fun element hsingle => ⟨?_, fun p hp => ?_⟩,
    fun path p hp => ⟨length_fields_of_resolve hp, chain_of_resolve hp⟩,
    fun path e => resolve_eq_error_iff, fun _ _ _ => rfl, fun _ _ => rfl⟩
  · rw [resolve_append_eq_ok_iff]
    constructor
    · rintro ⟨p, t, q, hp, ht, hq, rfl⟩
      exact ⟨p, t, q, hp, ht, hq, rfl⟩
    · rintro ⟨p, t, q, hp, ht, hq, hfields⟩
      exact ⟨p, t, q, hp, ht, hq, FieldPath.ext hfields.symm⟩
  · have hfound : (∃ p, resolve s m element = .ok p) ↔
        ∃ f, s.field? m.fullName (Text.stripped element) = some f := by
      simp only [resolve_single_eq_ok_iff hsingle]
      exact ⟨fun ⟨_, f, hf, _⟩ => ⟨f, hf⟩, fun ⟨f, hf⟩ => ⟨_, f, hf, rfl⟩⟩
    rw [hfound, ← Option.isSome_iff_exists, Schema.field?, List.find?_isSome]
    simp only [decide_eq_true_eq]
  · obtain ⟨f, hf, rfl⟩ := (resolve_single_eq_ok_iff hsingle).mp hp
    obtain ⟨before, after, hsplit, hname, hbefore⟩ := field?_eq_some_iff.mp hf
    exact ⟨f, before, after, rfl, hsplit, hname, hbefore⟩

end HttpTranscoding.FieldPath
