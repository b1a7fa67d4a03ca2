import HttpTranscoding.Check.Binding
import HttpTranscoding.Proofs.Path.Overlaps
import HttpTranscoding.Proofs.Query.BoundValues

/-!
# The order of path variables

The path variables of a template may come in any order. What they leave over depends on the
bound paths as a set, so the body and the query parameters get the same fields in the same
order, and the same is wrong with them. What is wrong with the variables themselves is
permuted along with them, overlaps included, since each variable is compared with every other
one wherever it stands.

* `unboundPaths_of_mem_iff`: what a set of bound paths leaves over;
* `Binding.resolve_permuted`: rules with the same variables in different orders.
-/

namespace HttpTranscoding

/-! ## What is left over -/

/-- What is left over depends on which paths are bound, not on their order or number. -/
theorem unboundPaths_of_mem_iff (s : Schema) (m : String) {bound bound' : List (List Field)}
    (h : ∀ p, p ∈ bound ↔ p ∈ bound') : unboundPaths s m bound = unboundPaths s m bound' := by
  induction hn : bound.flatten.length using Nat.strongRecOn generalizing m bound bound' with
  | ind n ih =>
    rw [unboundPaths, unboundPaths]
    refine List.flatMap_congr fun f _ => ?_
    have hrest : ∀ rest, rest ∈ remainders f bound ↔ rest ∈ remainders f bound' := by
      simp only [mem_remainders, h, implies_true]
    have hfree : remainders f bound = [] ↔ remainders f bound' = [] := by
      simp only [remainders_eq_nil_iff, h]
    by_cases free : remainders f bound = []
    · simp only [free, hfree.mp free, ↓reduceDIte]
    · simp only [free, mt hfree.mpr free, ↓reduceDIte, hrest]
      cases f.nested? with
      | none => rfl
      | some t => simp only [ih _ (hn ▸ length_flatten_remainders_lt free) t.fullName hrest rfl]

/-- The fields for the body and for the query do not depend on the order of the bound paths. -/
theorem Binding.share_of_perm {s : Schema} {request : MessageRef} {paths paths' : List FieldPath}
    (h : paths.Perm paths') (body : RequestBody) :
    share s request paths body = share s request paths' body := by
  have hunbound : ∀ more, unbound s request (paths ++ more) = unbound s request (paths' ++ more) :=
    fun more => unboundPaths_of_mem_iff s _ fun _ => ((h.append_right more).map _).mem_iff
  have hnone := hunbound []
  rw [List.append_nil, List.append_nil] at hnone
  cases body with
  | absent => simp only [share, hnone]
  | unbound => simp only [share, hnone]
  | field path => simp only [share, hunbound]

/-! ## Rules with the same variables -/

/-- The rules differ at most in their path templates, and these have the same variables, in
whatever order. -/
structure HttpRule.Permuted (rule rule' : HttpRule) : Prop where
  verb : rule'.verb? = rule.verb?
  body : rule'.body = rule.body
  selector : rule'.selector = rule.selector
  additional : rule'.additional = rule.additional
  names : (PathTemplate.namesIn rule.template).Perm (PathTemplate.namesIn rule'.template)

/-- The bindings have the same fields in the body and in the query and the same wrong with these
and with the response; what is wrong with the path variables of one is what is wrong with those
of the other, in whatever order. -/
structure Binding.Permuted (s : Schema) (o : Options) (method : Method) (b b' : Binding) :
    Prop where
  bodyFields : b'.bodyFields = b.bodyFields
  paramFields : b'.paramFields = b.paramFields
  body : Check.body b' = Check.body b
  response : Check.response method b'.verb? = Check.response method b.verb?
  parameters : Check.parameters s o b' = Check.parameters s o b
  overlaps : (Check.overlaps b.pathFields).Perm (Check.overlaps b'.pathFields)
  segments : (Check.segments b.pathFields).Perm (Check.segments b'.pathFields)

section Permuted

variable {s : Schema} {request : MessageRef} {rule rule' : HttpRule}

theorem HttpRule.Permuted.exists_resolve_iff (h : rule.Permuted rule') :
    (∃ b, Binding.resolve s request rule = .ok b) ↔
      ∃ b, Binding.resolve s request rule' = .ok b := by
  rw [Binding.exists_resolve_iff, Binding.exists_resolve_iff, HttpRule.references,
    HttpRule.references, h.body]
  simp only [List.mem_append, h.names.mem_iff]

theorem HttpRule.Permuted.binding {method : Method} (h : rule.Permuted rule') (o : Options)
    {b b' : Binding} (hb : Binding.resolve s method.input rule = .ok b)
    (hb' : Binding.resolve s method.input rule' = .ok b') : b.Permuted s o method b' := by
  obtain ⟨hpath, hshare, hverb, -, hbody, -⟩ := Binding.resolve_eq_ok_iff.mp hb
  obtain ⟨hpath', hshare', hverb', -, hbody', -⟩ := Binding.resolve_eq_ok_iff.mp hb'
  have hperm : b.pathFields.Perm b'.pathFields := perm_of_mapM h.names hpath hpath'
  rw [h.body, ← Binding.share_of_perm hperm, hshare] at hshare'
  obtain ⟨hbodyFields, hparamFields⟩ := Prod.mk.inj (Except.ok.inj hshare')
  have hverbs : b'.verb? = b.verb? := by rw [hverb, hverb', h.verb]
  have hbodies : b'.body = b.body := by rw [hbody, hbody', h.body]
  exact {
    bodyFields := hbodyFields.symm
    paramFields := hparamFields.symm
    body := by simp only [Check.body, hverbs, hbodies, hbodyFields]
    response := by rw [hverbs]
    parameters := by simp only [Check.parameters, hparamFields]
    overlaps := Check.overlaps_perm hperm
    segments := hperm.filterMap _ }

end Permuted

/-- Rules that differ only in their path templates, where these have the same variables in
different orders, resolve both or neither. If they do, what is sent in the body and in the query
is the same, and what is wrong with their bindings as well, but that for path variables it may
come in another order. Their additional rules have the same bindings. -/
theorem Binding.resolve_permuted (s : Schema) (o : Options) (method : Method)
    {rule rule' : HttpRule} (h : rule.Permuted rule') :
    ((∃ b, resolve s method.input rule = .ok b) ↔
      ∃ b', resolve s method.input rule' = .ok b') ∧
    (∀ b b', resolve s method.input rule = .ok b → resolve s method.input rule' = .ok b' →
      b.Permuted s o method b') ∧
    ((∃ b, MethodBinding.resolve s method.input rule = .ok b) ↔
      ∃ b', MethodBinding.resolve s method.input rule' = .ok b') ∧
    ∀ b b', MethodBinding.resolve s method.input rule = .ok b →
      MethodBinding.resolve s method.input rule' = .ok b' →
      b.primary.Permuted s o method b'.primary ∧ b'.additional = b.additional := by
  refine ⟨h.exists_resolve_iff, fun b b' => h.binding o, ?_, fun b b' hb hb' => ?_⟩
  · simp only [MethodBinding.exists_resolve_iff, List.forall_mem_cons, h.exists_resolve_iff,
      h.additional]
  · obtain ⟨hprimary, hadditional⟩ := MethodBinding.resolve_eq_ok_iff.mp hb
    obtain ⟨hprimary', hadditional'⟩ := MethodBinding.resolve_eq_ok_iff.mp hb'
    rw [h.additional, ← mapM_eq_ok_iff, mapM_eq_ok_iff.mpr hadditional] at hadditional'
    exact ⟨h.binding o hprimary hprimary', (Except.ok.inj hadditional').symm⟩

/-! ## An author and the author's name -/

open Check (bookSchema bookAuthor bookTags authorName getBook)

/-- A rule whose path binds an author and twice the author's name. -/
def authorRules (path : String) : HttpRule :=
  ⟨some (.standard .get path), "", "", []⟩

def authorNamePath : FieldPath :=
  .cons bookAuthor (.single authorName)

def authorBinding : Binding where
  verb? := some .get
  path := "/v1/{author}/{author.name}/{author.name=*}"
  body := .absent
  bodyFields := []
  pathFields := [.single bookAuthor, authorNamePath, authorNamePath]
  paramFields := [.single bookTags]
  selector := ""
  nested := 0

def authorOverlaps : List Violation :=
  [.overlap (.single bookAuthor) authorNamePath, .overlap (.single bookAuthor) authorNamePath,
    .overlap authorNamePath authorNamePath, .overlap authorNamePath authorNamePath]

/-- The author may come before the name or between its two places. -/
theorem resolve_authorRules :
    (authorRules authorBinding.path).Permuted
        (authorRules "/v1/{author.name}/{author}/{author.name=*}") ∧
      Binding.resolve bookSchema getBook.input (authorRules authorBinding.path) =
        .ok authorBinding ∧
      Check.overlaps authorBinding.pathFields = authorOverlaps ∧
      ∃ b, Binding.resolve bookSchema getBook.input
          (authorRules "/v1/{author.name}/{author}/{author.name=*}") = .ok b ∧
        b.paramFields = [.single bookTags] ∧ authorOverlaps.Perm (Check.overlaps b.pathFields) := by
  have hnames : PathTemplate.namesIn (authorRules authorBinding.path).template =
      ["author", "author.name", "author.name"] := by cbv
  have hnames' : PathTemplate.namesIn
      (authorRules "/v1/{author.name}/{author}/{author.name=*}").template =
      ["author.name", "author", "author.name"] := by cbv
  have hpermuted : (authorRules authorBinding.path).Permuted
      (authorRules "/v1/{author.name}/{author}/{author.name=*}") :=
    ⟨rfl, rfl, rfl, rfl, by rw [hnames, hnames']; exact .swap _ _ _⟩
  have hfirst : Binding.resolve bookSchema getBook.input (authorRules authorBinding.path) =
      .ok authorBinding :=
    Binding.resolve_of_namesIn_eq hnames rfl (by decide +kernel)
  have hoverlaps : Check.overlaps authorBinding.pathFields = authorOverlaps := by decide +kernel
  obtain ⟨hiff, hsame, -⟩ := Binding.resolve_permuted bookSchema .default getBook hpermuted
  obtain ⟨b, hb⟩ := hiff.mp ⟨authorBinding, hfirst⟩
  have hb' : authorBinding.Permuted bookSchema .default getBook b := hsame authorBinding b hfirst hb
  exact ⟨hpermuted, hfirst, hoverlaps, b, hb, hb'.paramFields, hoverlaps ▸ hb'.overlaps⟩

end HttpTranscoding
