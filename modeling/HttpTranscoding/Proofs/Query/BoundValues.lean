import HttpTranscoding.Proofs.Binding.Resolution
import HttpTranscoding.Proofs.Binding.Unbound
import HttpTranscoding.Proofs.Query.Comparison

/-!
# Values bound in the path

To bind a field that is sent as values, however deep, takes nothing from what a walk below
the query parameters finds. The messages on the way to the field are taken apart in either
case: by the walk, or before it to find out what is left over (`unboundPaths`), in which case
a walk begins with nothing open at each field that is left. The two come to the same fields
in the same order and find the same, unless there is a cycle.

* `flatMap_walk_unboundPaths`: the walks below what is left of a message;
* `parameters_eq_of_endsInValue`: two rules that differ in the values that they bind.
-/

namespace HttpTranscoding

/-- The path ends in a field that is sent as values, one or several, and the fields before it
hold one message each that does not render as a value. -/
structure FieldPath.EndsInValue (p : FieldPath) : Prop where
  value : ¬p.type.isMap ∧ ∀ t, p.type.target = some t → t.wellKnown.rendersAsParameter
  single : ∀ f ∈ p.fields.dropLast, ¬f.type.repeated ∧
    ∃ t, f.type.target = some t ∧ ¬t.wellKnown.rendersAsParameter

theorem Field.parameterShape_eq_value_iff {f : Field} : f.parameterShape = .value ↔
    ¬f.type.isMap ∧ ∀ t, f.type.target = some t → t.wellKnown.rendersAsParameter := by
  unfold Field.parameterShape
  grind

theorem unboundPaths_nil (s : Schema) (m : String) :
    unboundPaths s m [] = (s.fieldsOf m).map .single := by
  rw [unboundPaths, List.map_eq_flatMap]
  simp [remainders]

namespace Check

variable {s : Schema} {allowed : NameSet}

theorem walk_of_value {f : Field} {V : NameSet} (h : f.parameterShape = .value) :
    walk s allowed f V = [] := by
  have hstop : ∀ t, f.Expandable allowed t → t.fullName ∈ V := by
    intro t ht
    rw [Field.parameterShape_eq_message_iff.mpr ht.1] at h
    exact nomatch h
  rw [walk_of_stopped hstop, faults, h]

/-- There is nothing wrong with a field that holds one message, apart from what is below it. -/
theorem walk_of_single {f : Field} {V : NameSet} {t : MessageRef} (hf : f.Plain t)
    (hrep : ¬f.type.repeated) (ht : t.fullName ∉ V) :
    walk s allowed f V =
      (s.fieldsOf t.fullName).flatMap fun g => walk s allowed g (V.insert t.fullName) := by
  have hfaults : faults allowed V f = [] := by
    rw [faults, Field.parameterShape_eq_message_iff.mpr hf]
    simp [ht, hrep]
  rw [walk_of_opened ⟨hf, fun hallowed => hrep hallowed.1⟩ ht, hfaults, List.nil_append]

/-- `FieldPath.EndsInValue` of what is left of a path, down to nothing. -/
def EndsInValue (fields : List Field) : Prop :=
  (∀ f ∈ fields.getLast?, f.parameterShape = .value) ∧
    ∀ f ∈ fields.dropLast, ¬f.type.repeated ∧ ∃ t, f.Plain t

theorem EndsInValue.tail {f : Field} {rest : List Field} (h : EndsInValue (f :: rest))
    (hrest : rest ≠ []) : (¬f.type.repeated ∧ ∃ t, f.Plain t) ∧ EndsInValue rest := by
  obtain ⟨hlast, hsingle⟩ := h
  rw [List.dropLast_cons_of_ne_nil hrest, List.forall_mem_cons] at hsingle
  rw [List.getLast?_cons_of_ne_nil hrest] at hlast
  exact ⟨hsingle.1, hlast, hsingle.2⟩

/-- What is left of a message, if only values are bound in it, has wrong with it what the whole
message has. -/
theorem flatMap_walk_unboundPaths {m : String} {bound : List (List Field)} {V : NameSet}
    (hbound : ∀ b ∈ bound, EndsInValue b)
    (hacyclic : ∀ f ∈ s.fieldsOf m, ∀ g, .cyclicParameter g ∉ walk s allowed f V) :
    ((unboundPaths s m bound).flatMap fun p => walk s allowed p.last ∅) =
      (s.fieldsOf m).flatMap fun f => walk s allowed f V := by
  induction hn : bound.flatten.length using Nat.strongRecOn generalizing m bound V with
  | ind n ih =>
    rw [unboundPaths, List.flatMap_assoc]
    refine List.flatMap_congr fun f hf => ?_
    -- The field is left over as a whole.
    by_cases free : remainders f bound = []
    · have hwalk := walk_eq_of_subset (fun n hn => absurd hn Std.ExtTreeSet.not_mem_empty)
        (hacyclic f hf)
      simpa [free, FieldPath.single, FieldPath.last] using hwalk
    -- The field is bound.
    by_cases past : [] ∈ remainders f bound
    · have hvalue : f.parameterShape = .value :=
        (hbound [f] (mem_remainders.mp past)).1 f rfl
      simp [free, past, walk_of_value hvalue]
    -- The field leads to others that are bound.
    · obtain ⟨rest, hrest⟩ := List.exists_mem_of_ne_nil _ free
      have hne : rest ≠ [] := fun e => past (e ▸ hrest)
      obtain ⟨⟨hrep, t, hplain⟩, -⟩ := (hbound _ (mem_remainders.mp hrest)).tail hne
      have nested : f.nested? = some t := Field.nested?_eq_some_iff.mpr ⟨hrep, hplain.1⟩
      have ht : t.fullName ∉ V := fun hV => hacyclic f hf f (cyclicParameter_mem_walk hplain hV)
      have hwalk : walk s allowed f V = (s.fieldsOf t.fullName).flatMap fun g =>
          walk s allowed g (V.insert t.fullName) := walk_of_single hplain hrep ht
      have hbelow := ih _ (hn ▸ length_flatten_remainders_lt free)
        (fun b hb => ((hbound _ (mem_remainders.mp hb)).tail fun e => past (e ▸ hb)).2)
        (fun g hg c hc => hacyclic f hf c (hwalk ▸ List.mem_flatMap.mpr ⟨g, hg, hc⟩)) rfl
      simp only [free, past, nested, ↓reduceDIte, ↓reduceIte, List.flatMap_map, FieldPath.last_cons]
      rw [hbelow, hwalk]

/-! ## Rules without a body -/

variable {o : Options} {request : MessageRef} {rule : HttpRule} {b : Binding}

/-- Without a body, everything that the path leaves over is sent as query parameters. -/
theorem parameters_of_bodyless (h : Binding.resolve s request rule = .ok b)
    (hbody : rule.body = "") :
    parameters s o b =
      (unboundPaths s request.fullName (b.pathFields.map (·.fields))).flatMap fun p =>
        walk s o.allowed p.last ∅ := by
  obtain ⟨-, hshare, -⟩ := Binding.resolve_eq_ok_iff.mp h
  have hdeclared : RequestBody.declared rule.body = .absent := by rw [hbody]; rfl
  rw [hdeclared] at hshare
  obtain ⟨-, hparams⟩ := Prod.mk.inj (Except.ok.inj hshare)
  rw [parameters, parameterFields_eq, ← hparams, List.flatMap_map]
  rfl

/-- A rule without a body resolves if its path variables do. -/
theorem exists_resolve_of_bodyless (hbody : rule.body = "")
    (h : ∀ path ∈ PathTemplate.namesIn rule.template,
      ∃ p, FieldPath.resolve s request path = .ok p) :
    ∃ b, Binding.resolve s request rule = .ok b := by
  rw [Binding.exists_resolve_iff]
  intro path hpath
  have hnone : (RequestBody.declared rule.body).references = [] := by rw [hbody]; rfl
  rw [HttpRule.references, hnone, List.append_nil] at hpath
  exact h path hpath

theorem EndsInValue.of_path {p : FieldPath} (h : p.EndsInValue) : EndsInValue p.fields where
  left f hf := by
    rw [List.getLast?_eq_some_getLast p.ne_nil, Option.mem_some_iff] at hf
    exact hf ▸ Field.parameterShape_eq_value_iff.mpr h.value
  right f hf := by
    obtain ⟨hrep, t, ht, hplain⟩ := h.single f hf
    exact ⟨hrep, t, ht, by simp [TypeRef.isMap, hrep], hplain⟩

/-- Without a body and path variables, the whole request is sent as query parameters. -/
theorem parameters_of_unbound (h : Binding.resolve s request rule = .ok b) (hbody : rule.body = "")
    (hnone : PathTemplate.namesIn rule.template = []) :
    parameters s o b = (s.fieldsOf request.fullName).flatMap fun f => walk s o.allowed f ∅ := by
  obtain ⟨hpath, -⟩ := Binding.resolve_eq_ok_iff.mp h
  rw [hnone] at hpath
  have hnothing : b.pathFields = [] := (Except.ok.inj hpath).symm
  rw [parameters_of_bodyless h hbody, hnothing, List.map_nil, unboundPaths_nil, List.flatMap_map]
  rfl

/-- The fields bound in the path are those of the path variables, so they end in values if these
do. -/
theorem endsInValue_of_mem_pathFields (h : Binding.resolve s request rule = .ok b)
    (hvalues : ∀ path ∈ PathTemplate.namesIn rule.template,
      ∃ p, FieldPath.resolve s request path = .ok p ∧ p.EndsInValue) :
    ∀ fields ∈ b.pathFields.map (·.fields), EndsInValue fields := by
  rw [List.forall_mem_map]
  intro p hp
  obtain ⟨hpath, -⟩ := Binding.resolve_eq_ok_iff.mp h
  obtain ⟨path, hmem, hresolve⟩ := exists_of_mem_mapM hpath hp
  obtain ⟨q, hq, hvalue⟩ := hvalues path hmem
  obtain rfl : q = p := Except.ok.inj (hq.symm.trans hresolve)
  exact .of_path hvalue

/-- Of two rules without a body, let one bind nothing and the other only fields that are sent as
values, each through messages that are taken apart. Both resolve, and unless there is a cycle
among the query parameters of the first, the same is wrong with those of the second, in the
same order. -/
theorem parameters_eq_of_endsInValue {method : Method} {r₀ r₁ : HttpRule} (hbody₀ : r₀.body = "")
    (hbody₁ : r₁.body = "") (hnone : PathTemplate.namesIn r₀.template = [])
    (hvalues : ∀ path ∈ PathTemplate.namesIn r₁.template,
      ∃ p, FieldPath.resolve s method.input path = .ok p ∧ p.EndsInValue) :
    ∃ b₀ b₁, Binding.resolve s method.input r₀ = .ok b₀ ∧
      Binding.resolve s method.input r₁ = .ok b₁ ∧
      ((∀ v ∈ parameters s o b₀, v.kind ≠ .cyclicParamReference) →
        parameters s o b₁ = parameters s o b₀) := by
  have hresolve₀ : ∃ b, Binding.resolve s method.input r₀ = .ok b :=
    exists_resolve_of_bodyless hbody₀ (by simp [hnone])
  have hresolve₁ : ∃ b, Binding.resolve s method.input r₁ = .ok b :=
    exists_resolve_of_bodyless hbody₁ fun path hpath => (hvalues path hpath).imp fun _ h => h.1
  obtain ⟨b₀, h₀⟩ := hresolve₀
  obtain ⟨b₁, h₁⟩ := hresolve₁
  refine ⟨b₀, b₁, h₀, h₁, fun hacyclic => ?_⟩
  rw [parameters_of_unbound h₀ hbody₀ hnone] at hacyclic ⊢
  rw [parameters_of_bodyless h₁ hbody₁]
  exact flatMap_walk_unboundPaths (endsInValue_of_mem_pathFields h₁ hvalues) fun f hf g hg =>
    hacyclic _ (List.mem_flatMap.mpr ⟨f, hf, hg⟩) rfl

/-! ## A book found by its author -/

def authorName : Field := ⟨"v1.Author", 0, "name", 1, ⟨.string, false, none⟩⟩

def authorEmail : Field := ⟨"v1.Author", 1, "email", 2, ⟨.string, false, none⟩⟩

def tagLabel : Field := ⟨"v1.Tag", 0, "label", 1, ⟨.string, false, none⟩⟩

def bookAuthor : Field := ⟨"v1.Book", 0, "author", 1, ⟨.message, false, some ⟨"v1.Author", false⟩⟩⟩

def bookTags : Field := ⟨"v1.Book", 1, "tags", 2, ⟨.message, true, some ⟨"v1.Tag", false⟩⟩⟩

/-- Books with their authors and several tags. -/
def bookSchema : Schema where
  messages := [⟨"v1.Author", "books.proto", false, [authorName, authorEmail]⟩,
    ⟨"v1.Tag", "books.proto", false, [tagLabel]⟩,
    ⟨"v1.Book", "books.proto", false, [bookAuthor, bookTags]⟩]
  methods := []
  targets := ["books.proto"]

def bookRule : HttpRule :=
  ⟨some (.standard .get "/v1/book"), "", "", []⟩

def authorRule : HttpRule :=
  ⟨some (.standard .get "/v1/{author.name}/book"), "", "", []⟩

def getBook : Method :=
  ⟨"v1.Books.GetBook", ⟨"v1.Book", false⟩, ⟨"v1.Book", false⟩, some bookRule,
    .ofElement "books.proto" "v1.Books.GetBook"⟩

def bookBinding : Binding :=
  ⟨some .get, "/v1/book", .absent, [], [], [.single bookAuthor, .single bookTags], "", 0⟩

theorem endsInValue_authorName : (FieldPath.cons bookAuthor (.single authorName)).EndsInValue where
  value := by decide
  single := by
    have hauthor : ¬bookAuthor.type.repeated ∧ ∃ t, bookAuthor.type.target = some t ∧
        ¬t.wellKnown.rendersAsParameter := ⟨by decide, _, rfl, by decide⟩
    simpa [FieldPath.cons, FieldPath.single] using hauthor

/-- The tags are wrong in the query, whether the name of the author is bound or not. -/
theorem parameters_getBook :
    Binding.resolve bookSchema getBook.input bookRule = .ok bookBinding ∧
      parameters bookSchema .default bookBinding = [.repeatedParameter bookTags] ∧
      ∃ b, Binding.resolve bookSchema getBook.input authorRule = .ok b ∧
        parameters bookSchema .default b = [.repeatedParameter bookTags] := by
  have hnames : PathTemplate.namesIn authorRule.template = ["author.name"] := by cbv
  have hname : FieldPath.resolve bookSchema getBook.input "author.name" =
      .ok (.cons bookAuthor (.single authorName)) := rfl
  have hbook : Binding.resolve bookSchema getBook.input bookRule = .ok bookBinding := by cbv
  have hwrong : parameters bookSchema .default bookBinding = [.repeatedParameter bookTags] := rfl
  have hvalues : ∀ path ∈ PathTemplate.namesIn authorRule.template,
      ∃ p, FieldPath.resolve bookSchema getBook.input path = .ok p ∧ p.EndsInValue := by
    rw [hnames, List.forall_mem_singleton]
    exact ⟨_, hname, endsInValue_authorName⟩
  obtain ⟨b₀, b₁, h₀, h₁, hsame⟩ : ∃ b₀ b₁,
      Binding.resolve bookSchema getBook.input bookRule = .ok b₀ ∧
      Binding.resolve bookSchema getBook.input authorRule = .ok b₁ ∧
      ((∀ v ∈ parameters bookSchema .default b₀, v.kind ≠ .cyclicParamReference) →
        parameters bookSchema .default b₁ = parameters bookSchema .default b₀) :=
    parameters_eq_of_endsInValue rfl rfl (by cbv) hvalues
  obtain rfl : bookBinding = b₀ := Except.ok.inj (hbook.symm.trans h₀)
  refine ⟨hbook, hwrong, b₁, h₁, ?_⟩
  rw [← hwrong]
  exact hsame (by rw [hwrong]; simp [Violation.kind])

end Check

end HttpTranscoding
