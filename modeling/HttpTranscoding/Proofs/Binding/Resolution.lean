import HttpTranscoding.Binding.Basic
import HttpTranscoding.Proofs.Except
import HttpTranscoding.Proofs.FieldPath.Text
import HttpTranscoding.Proofs.PathTemplate.Grammar

/-!
# Which rules resolve

A rule has a binding if and only if every field path that it writes leads somewhere:
those of its path variables and that of a body it names (`Binding.exists_resolve_iff`).
Since additional rules are resolved along with the rule that brings them, the same holds
of a method (`MethodBinding.exists_ofMethod?_iff`); the rules nested in additional ones
play no part in it.

`Binding.leftOver_eq` says of a binding there is that what its rule declares to take the
rest takes exactly what the paths it binds leave unbound.
-/

namespace HttpTranscoding

/-! ## One rule -/

/-- The field path that a body is named by, if it is. -/
def RequestBody.references : RequestBody → List String
  | absent | unbound => []
  | field path => [path]

/-- The field paths that a rule writes, for its path variables and for its body. -/
def HttpRule.references (rule : HttpRule) : List String :=
  PathTemplate.namesIn rule.template ++ (RequestBody.declared rule.body).references

namespace Binding

variable {s : Schema} {request : MessageRef} {rule : HttpRule} {b : Binding}

/-- The paths that the rule itself binds, to path variables and to a body it names. -/
def bound (b : Binding) : List FieldPath :=
  b.pathFields ++
    match b.body with
    | .field _ => b.bodyFields
    | .absent | .unbound => []

/-- The paths that the rule leaves to whatever takes the rest, the body or the query. -/
def leftOver (b : Binding) : List FieldPath :=
  match b.body with
  | .unbound => b.bodyFields
  | .absent | .field _ => b.paramFields

/-- What there is to know of the binding of a rule. -/
theorem resolve_eq_ok_iff : resolve s request rule = .ok b ↔
    (PathTemplate.namesIn rule.template).mapM (FieldPath.resolve s request) = .ok b.pathFields ∧
      share s request b.pathFields (RequestBody.declared rule.body) =
        .ok (b.bodyFields, b.paramFields) ∧
      b.verb? = rule.verb? ∧ b.path = rule.template ∧ b.body = RequestBody.declared rule.body ∧
      b.selector = rule.selector ∧ b.nested = rule.additional.length := by
  unfold resolve
  simp only [bind_eq_ok_iff]
  constructor
  · rintro ⟨pathFields, hpath, ⟨bodyFields, paramFields⟩, hshare, h⟩
    obtain rfl := Except.ok.inj h
    exact ⟨hpath, hshare, rfl, rfl, rfl, rfl, rfl⟩
  · rintro ⟨hpath, hshare, hverb, htemplate, hbody, hselector, hnested⟩
    refine ⟨b.pathFields, hpath, (b.bodyFields, b.paramFields), hshare, ?_⟩
    rw [← hverb, ← htemplate, ← hbody, ← hselector, ← hnested]
    rfl

/-- The binding of a rule whose template names the given paths. -/
theorem resolve_of_namesIn_eq {names : List String}
    {pathFields bodyFields paramFields : List FieldPath}
    (hnames : PathTemplate.namesIn rule.template = names)
    (hpath : names.mapM (FieldPath.resolve s request) = .ok pathFields)
    (hshare : share s request pathFields (RequestBody.declared rule.body) =
      .ok (bodyFields, paramFields)) :
    resolve s request rule = .ok ⟨rule.verb?, rule.template, RequestBody.declared rule.body,
      bodyFields, pathFields, paramFields, rule.selector, rule.additional.length⟩ :=
  resolve_eq_ok_iff.mpr ⟨hnames ▸ hpath, hshare, rfl, rfl, rfl, rfl, rfl⟩

/-- The variables of a template are the texts of the paths that they resolve to. -/
theorem map_text_pathFields (h : resolve s request rule = .ok b) :
    b.pathFields.map (·.text) = PathTemplate.namesIn rule.template :=
  FieldPath.map_text_of_mapM (fun _ => PathTemplate.not_isBlank_of_mem_namesIn)
    (resolve_eq_ok_iff.mp h).1

/-- A named body is the one path that its text resolves to. -/
theorem bodyFields_of_named {path : String} (h : resolve s request rule = .ok b)
    (hbody : b.body = .field path) :
    ∃ p, FieldPath.resolve s request path = .ok p ∧ b.bodyFields = [p] := by
  obtain ⟨-, hshare, -, -, hdeclared, -⟩ := resolve_eq_ok_iff.mp h
  rw [← hdeclared, hbody] at hshare
  cases hp : FieldPath.resolve s request path with
  | error e => simp [share, hp, Except.map] at hshare
  | ok p =>
    simp only [share, hp, Except.map, Except.ok.injEq, Prod.mk.injEq] at hshare
    exact ⟨p, rfl, hshare.1.symm⟩

/-- Whatever takes the rest takes what the bound paths leave unbound. -/
theorem leftOver_eq (h : resolve s request rule = .ok b) :
    b.leftOver = HttpTranscoding.unbound s request b.bound := by
  obtain ⟨-, hshare, -, -, hdeclared, -⟩ := resolve_eq_ok_iff.mp h
  rw [← hdeclared] at hshare
  unfold leftOver bound
  cases hbody : b.body with
  | absent =>
    simp only [hbody, share, Except.ok.injEq, Prod.mk.injEq] at hshare
    simp [hshare.2]
  | unbound =>
    simp only [hbody, share, Except.ok.injEq, Prod.mk.injEq] at hshare
    simp [hshare.1]
  | field path =>
    obtain ⟨p, hp, hfields⟩ := bodyFields_of_named h hbody
    simp only [hbody, share, hp, Except.map, Except.ok.injEq, Prod.mk.injEq] at hshare
    simp [hfields, ← hshare.2]

theorem exists_share_iff {pathFields : List FieldPath} {body : RequestBody} :
    (∃ fields, share s request pathFields body = .ok fields) ↔
      ∀ path ∈ body.references, ∃ p, FieldPath.resolve s request path = .ok p := by
  cases body with
  | absent => simp [share, RequestBody.references]
  | unbound => simp [share, RequestBody.references]
  | field path =>
    cases hp : FieldPath.resolve s request path <;>
      simp [share, RequestBody.references, hp, Except.map]

/-- A rule has a binding if every field path that it writes leads to a field. -/
theorem exists_resolve_iff : (∃ b, resolve s request rule = .ok b) ↔
    ∀ path ∈ rule.references, ∃ p, FieldPath.resolve s request path = .ok p := by
  unfold HttpRule.references
  rw [List.forall_mem_append, ← exists_mapM_iff]
  constructor
  · rintro ⟨b, h⟩
    obtain ⟨hpath, hshare, -⟩ := resolve_eq_ok_iff.mp h
    exact ⟨⟨_, hpath⟩, exists_share_iff.mp ⟨_, hshare⟩⟩
  · rintro ⟨⟨pathFields, hpath⟩, hbody⟩
    obtain ⟨⟨bodyFields, paramFields⟩, hshare⟩ := exists_share_iff.mpr hbody
    exact ⟨_, resolve_of_namesIn_eq rfl hpath hshare⟩

end Binding

/-! ## The rules of a method -/

namespace MethodBinding

variable {s : Schema} {request : MessageRef} {rule : HttpRule}

/-- The bindings of a rule are those that it and its additional rules have by themselves. -/
theorem resolve_eq_ok_iff {b : MethodBinding} :
    resolve s request rule = .ok b ↔
      Binding.resolve s request rule = .ok b.primary ∧
        List.Forall₂ (fun x a => Binding.resolve s request x = .ok a) rule.additional
          b.additional := by
  unfold resolve
  simp only [bind_eq_ok_iff, ← mapM_eq_ok_iff]
  constructor
  · rintro ⟨primary, hprimary, additional, hadditional, hb⟩
    obtain rfl := Except.ok.inj hb
    exact ⟨hprimary, hadditional⟩
  · rintro ⟨hprimary, hadditional⟩
    exact ⟨b.primary, hprimary, b.additional, hadditional, rfl⟩

/-- A rule and its additional rules resolve together or not at all. -/
theorem exists_resolve_iff : (∃ b, resolve s request rule = .ok b) ↔
    ∀ r ∈ rule :: rule.additional, ∃ b, Binding.resolve s request r = .ok b := by
  unfold resolve
  simp only [bind_eq_ok_iff, List.forall_mem_cons, ← exists_mapM_iff]
  constructor
  · rintro ⟨_, primary, hprimary, additional, hadditional, -⟩
    exact ⟨⟨primary, hprimary⟩, additional, hadditional⟩
  · rintro ⟨⟨primary, hprimary⟩, additional, hadditional⟩
    exact ⟨_, primary, hprimary, additional, hadditional, rfl⟩

/-- A method's bindings are to be had if it declares none, or if every field path leads to
a field that its rule or an additional one writes. -/
theorem exists_ofMethod?_iff {method : Method} :
    (∃ b?, ofMethod? s method = .ok b?) ↔
      ∀ rule, method.http = some rule → ∀ r ∈ rule :: rule.additional, ∀ path ∈ r.references,
        ∃ p, FieldPath.resolve s method.input path = .ok p := by
  unfold ofMethod?
  cases method.http with
  | none => simp
  | some rule =>
    simp only [Option.some.injEq, forall_eq', ← Binding.exists_resolve_iff, ← exists_resolve_iff]
    cases resolve s method.input rule <;> simp [Except.map]

end MethodBinding

end HttpTranscoding
