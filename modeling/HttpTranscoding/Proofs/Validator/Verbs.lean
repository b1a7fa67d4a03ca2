import HttpTranscoding.Proofs.Validator.Additional
import HttpTranscoding.Proofs.Validator.Allowed

/-!
# What the verb of a rule decides

The verb of a rule decides on one thing: whether bodies are looked at, that of the request and
that of the response. Which verb it is does not matter, nor whether it is given as such or as a
method kind of the author's own that names it in letters of either case. Without a verb the
rule resolves to the same fields, and what is reported of it is the same but for bodies.

* `Verb.ofText?_eq_some_iff`: the texts that name a verb;
* `MethodBinding.resolve_through`: rules resolve alike, whatever pattern they go through;
* `Check.binding_some`, `Check.binding_none`: what is wrong with a binding, under other verbs
  and without one;
* `Validator.verbs_gate_bodies`: all of this about runs.
-/

namespace HttpTranscoding

/-! ## Names of verbs -/

theorem toNat_toLower (c : Char) :
    c.toLower.toNat = if 65 ≤ c.toNat ∧ c.toNat ≤ 90 then c.toNat + 32 else c.toNat := by
  unfold Char.toLower
  split
  · rename_i h
    have hcapital : 65 ≤ c.toNat ∧ c.toNat ≤ 90 := h
    have hoffset : ('a'.val - 'A'.val).toNat = 32 := rfl
    have hval : c.val.toNat = c.toNat := rfl
    rw [if_pos hcapital]
    refine (UInt32.toNat_add c.val _).trans ?_
    omega
  · rename_i h
    have hother : ¬(65 ≤ c.toNat ∧ c.toNat ≤ 90) := h
    rw [if_neg hother]

theorem toNat_toUpper (c : Char) :
    c.toUpper.toNat = if 97 ≤ c.toNat ∧ c.toNat ≤ 122 then c.toNat - 32 else c.toNat := by
  unfold Char.toUpper
  split
  · rename_i h
    have hsmall : 97 ≤ c.toNat ∧ c.toNat ≤ 122 := h
    have hoffset : ('A'.val - 'a'.val).toNat = 2 ^ 32 - 32 := rfl
    have hval : c.val.toNat = c.toNat := rfl
    rw [if_pos hsmall]
    refine (UInt32.toNat_add c.val _).trans ?_
    omega
  · rename_i h
    have hother : ¬(97 ≤ c.toNat ∧ c.toNat ≤ 122) := h
    rw [if_neg hother]

/-- The small form of a character is a given small letter if it is that letter, small or capital. -/
theorem toLower_eq_iff {c l : Char} (hl : l.isLower) : c.toLower = l ↔ c = l ∨ c = l.toUpper := by
  have hbounds : (decide (97 ≤ l.toNat) && decide (l.toNat ≤ 122)) = true := hl
  have hsmall : 97 ≤ l.toNat ∧ l.toNat ≤ 122 := by simpa using hbounds
  simp only [← Char.toNat_inj, toNat_toLower, toNat_toUpper, if_pos hsmall]
  split <;> omega

theorem map_toLower_eq_iff {name : List Char} (hname : ∀ l ∈ name, l.isLower) {text : List Char} :
    text.map Char.toLower = name ↔
      List.Forall₂ (fun l c => c = l ∨ c = l.toUpper) name text := by
  induction name generalizing text with
  | nil => simp
  | cons l name ih =>
    rw [List.forall_mem_cons] at hname
    cases text with
    | nil => simp
    | cons c text =>
      rw [List.map_cons, List.cons_eq_cons, List.forall₂_cons, toLower_eq_iff hname.1, ih hname.2]

namespace Verb

/-- The text is the name of the verb, with any of its letters capital. -/
def SpelledBy (v : Verb) (text : String) : Prop :=
  List.Forall₂ (fun l c => c = l ∨ c = l.toUpper) v.name.toList text.toList

theorem isLower_of_mem_name (v : Verb) : ∀ l ∈ v.name.toList, l.isLower := by
  refine List.all_eq_true.mp ?_
  cases v <;> decide

/-- A text names the verb that it spells. -/
theorem ofText?_eq_some_iff {v : Verb} {text : String} : ofText? text = some v ↔ v.SpelledBy text := by
  unfold SpelledBy ofText?
  rw [← map_toLower_eq_iff v.isLower_of_mem_name]
  constructor
  · intro h
    have hname := List.find?_some h
    exact (beq_iff_eq.mp hname).symm
  · intro h
    rw [h]
    cases v <;> rfl

example : ofText? "PoSt" = some post ∧ ofText? "LIST" = none := by decide

end Verb

/-- Whether the pattern has the kind of a verb: it is one, or it spells one. -/
def Pattern.NamesVerb : Pattern → Prop
  | standard _ _ => True
  | custom kind _ => ∃ v : Verb, v.SpelledBy kind

theorem Pattern.namesVerb_iff {p : Pattern} : p.NamesVerb ↔ ∃ v, p.verb? = some v := by
  cases p with
  | standard verb path => simp [NamesVerb, verb?]
  | custom kind path => simp only [NamesVerb, verb?, Verb.ofText?_eq_some_iff]

/-! ## Rules that go through a pattern -/

/-- The rule with the given pattern in place of its own. -/
def HttpRule.through (rule : HttpRule) (p : Pattern) : HttpRule :=
  { rule with pattern := some p }

section Through

variable {s : Schema} {request : MessageRef} {p q : Pattern}

theorem Binding.resolve_through (rule : HttpRule) (hpath : p.path = q.path) :
    resolve s request (rule.through q) =
      (resolve s request (rule.through p)).map fun b => { b with verb? := q.verb? } := by
  have htemplate (x : Pattern) : (rule.through x).template = x.path := rfl
  have hbody (x : Pattern) : (rule.through x).body = rule.body := rfl
  unfold resolve
  simp only [htemplate, hbody, hpath]
  cases (PathTemplate.namesIn q.path).mapM (FieldPath.resolve s request) with
  | error e => rfl
  | ok pathFields =>
    cases hshare : share s request pathFields (RequestBody.declared rule.body) with
    | error e => simp only [hshare, bind, Except.bind, Except.map]
    | ok fields => simp only [hshare, bind, Except.bind, Except.map]; rfl

/-- Of the pattern of a rule, its bindings depend on the path template, and on the verb only in
that it is part of the rule's own binding. -/
theorem MethodBinding.resolve_through (rule : HttpRule) (hpath : p.path = q.path) :
    resolve s request (rule.through q) =
      (resolve s request (rule.through p)).map fun b =>
        { b with primary := { b.primary with verb? := q.verb? } } := by
  have hadditional (x : Pattern) : (rule.through x).additional = rule.additional := rfl
  unfold resolve
  rw [Binding.resolve_through rule hpath, hadditional, hadditional]
  cases Binding.resolve s request (rule.through p) with
  | error e => rfl
  | ok primary => cases rule.additional.mapM (Binding.resolve s request) <;> rfl

end Through

/-! ## What is wrong with bodies -/

/-- Whether diagnostics of the kind are about the body of a request or of a response. -/
def DiagnosticKind.concernsBodies : DiagnosticKind → Bool
  | bodyMustBeTopLevelField | bodyMustBeNonRepeatedAllowedMessage | responseNotJsonRenderable =>
    true
  | mapNotAllowedAsParam | repeatedMessageNotAllowedAsParam | cyclicParamReference
  | mapOrRepeatedOrDisallowedMessageOnPath | overlappingPathSelectors
  | additionalBindingHasNestedBindings | additionalBindingHasSelector => false

namespace Check

variable {s : Schema} {o : Options} {method : Method} {b : Binding}

/-- Which verb a binding has makes no difference. -/
theorem binding_some (u v : Verb) :
    binding s o method { b with verb? := some u } =
      binding s o method { b with verb? := some v } := by
  have hbody : body { b with verb? := some u } = body { b with verb? := some v } := by
    unfold body
    cases b.body <;> rfl
  unfold binding
  rw [hbody]
  rfl

theorem concernsBodies_of_mem_body {v : Violation} (h : v ∈ body b) : v.kind.concernsBodies := by
  unfold body at h
  grind [Violation.kind, DiagnosticKind.concernsBodies]

theorem concernsBodies_of_mem_response {verb? : Option Verb} {v : Violation}
    (h : v ∈ response method verb?) : v.kind.concernsBodies := by
  unfold response at h
  grind [Violation.kind, DiagnosticKind.concernsBodies]

theorem not_concernsBodies_of_mem_overlaps {paths : List FieldPath} {v : Violation}
    (h : v ∈ overlaps paths) : ¬v.kind.concernsBodies := by
  unfold overlaps at h
  simp only [List.mem_flatMap, List.mem_map] at h
  obtain ⟨x, -, y, -, rfl⟩ := h
  simp [Violation.kind, DiagnosticKind.concernsBodies]

theorem not_concernsBodies_of_mem_segments {paths : List FieldPath} {v : Violation}
    (h : v ∈ segments paths) : ¬v.kind.concernsBodies := by
  unfold segments at h
  simp only [List.mem_filterMap, Option.map_eq_some_iff] at h
  obtain ⟨p, -, fault, -, rfl⟩ := h
  simp [Violation.kind, DiagnosticKind.concernsBodies]

theorem not_concernsBodies_of_mem_parameters {v : Violation} (h : v ∈ parameters s o b) :
    ¬v.kind.concernsBodies := by
  have hkind := concernsParameters_of_mem_parameters h
  revert hkind
  generalize v.kind = k
  cases k <;> decide

/-- Without a verb, a binding has wrong with it what it has with one but for bodies. -/
theorem binding_none (v : Verb) :
    binding s o method { b with verb? := none } =
      (binding s o method { b with verb? := some v }).filter (!·.kind.concernsBodies) := by
  have hbody : (body { b with verb? := some v }).filter (!·.kind.concernsBodies) = [] :=
    List.filter_eq_nil_iff.mpr fun x hx => by simp [concernsBodies_of_mem_body hx]
  have hresponse : (response method (some v)).filter (!·.kind.concernsBodies) = [] :=
    List.filter_eq_nil_iff.mpr fun x hx => by simp [concernsBodies_of_mem_response hx]
  have hoverlaps : (overlaps b.pathFields).filter (!·.kind.concernsBodies) =
      overlaps b.pathFields :=
    List.filter_eq_self.mpr fun x hx => by simp [not_concernsBodies_of_mem_overlaps hx]
  have hparameters : (parameters s o b).filter (!·.kind.concernsBodies) = parameters s o b :=
    List.filter_eq_self.mpr fun x hx => by simp [not_concernsBodies_of_mem_parameters hx]
  have hsegments : (segments b.pathFields).filter (!·.kind.concernsBodies) =
      segments b.pathFields :=
    List.filter_eq_self.mpr fun x hx => by simp [not_concernsBodies_of_mem_segments hx]
  have hparametersOf (verb? : Option Verb) :
      parameters s o { b with verb? := verb? } = parameters s o b := rfl
  simp only [binding, List.filter_append, hbody, hresponse, hoverlaps, hsegments, hparametersOf,
    hparameters]
  rfl

end Check

/-! ## Runs -/

namespace Validator

variable {v : Validator} {method : Method} {b : Binding}

theorem block_none (verb : Verb) : v.block method { b with verb? := none } =
    (v.block method { b with verb? := some verb }).filter (!·.kind.concernsBodies) := by
  unfold block
  rw [Check.binding_none verb, List.filter_map]
  rfl

/-- A run records what is wrong with the rule itself, and then what is wrong with additional
rules. -/
theorem exists_run_eq (v : Validator) (method : Method) (additional : List Binding) :
    ∃ rest, ∀ (primary : Binding) r, (v.run method (some ⟨primary, additional⟩)).run r =
      (.ok (), r.append (v.block method primary ++ rest)) := by
  refine ⟨(additional.map fun a => (Check.additionalRule a).map (·.diagnostic method) ++
    v.block method a).flatten, fun primary r => ?_⟩
  rw [run_some, map_diagnostic_bindings]

/-- Rules that differ in their patterns, but not in the path templates of these, resolve to the
same fields or fail with the same error. Let one go through a verb. If the other does too, or
has a method kind that spells one, a run records the same for both. If it has no verb, what a run
records of additional rules is the same, and what it records of the rule itself are all
diagnostics but those about bodies. -/
theorem verbs_gate_bodies (v : Validator) (method : Method) (rule : HttpRule) (verb : Verb)
    (p : Pattern) :
    (∃ e, MethodBinding.resolve v.schema method.input (rule.through (.standard verb p.path)) =
        .error e ∧ MethodBinding.resolve v.schema method.input (rule.through p) = .error e) ∨
    ∃ b b', MethodBinding.resolve v.schema method.input (rule.through (.standard verb p.path)) =
        .ok b ∧ MethodBinding.resolve v.schema method.input (rule.through p) = .ok b' ∧
      b' = { b with primary := { b.primary with verb? := p.verb? } } ∧
      (p.NamesVerb → ∀ r, (v.run method (some b')).run r = (v.run method (some b)).run r) ∧
      (¬p.NamesVerb →
        v.block method b'.primary =
          (v.block method b.primary).filter (!·.kind.concernsBodies) ∧
        ∃ rest, ∀ c ∈ [b, b'], ∀ r, (v.run method (some c)).run r =
          (.ok (), r.append (v.block method c.primary ++ rest))) := by
  have hresolve : MethodBinding.resolve v.schema method.input (rule.through p) =
      (MethodBinding.resolve v.schema method.input (rule.through (.standard verb p.path))).map
        fun b => { b with primary := { b.primary with verb? := p.verb? } } :=
    MethodBinding.resolve_through rule rfl
  cases hb : MethodBinding.resolve v.schema method.input (rule.through (.standard verb p.path)) with
  | error e => exact .inl ⟨e, rfl, by rw [hresolve, hb]; rfl⟩
  | ok b =>
    rw [hb] at hresolve
    obtain ⟨hprimary, -⟩ := MethodBinding.resolve_eq_ok_iff.mp hb
    obtain ⟨-, -, hverb, -⟩ := Binding.resolve_eq_ok_iff.mp hprimary
    have hsame : b.primary = { b.primary with verb? := some verb } := congrArg
      (fun verb? => { b.primary with verb? := verb? }) hverb
    obtain ⟨rest, hrun⟩ := exists_run_eq v method b.additional
    refine .inr ⟨b, _, rfl, hresolve, rfl, fun hp r => ?_, fun hp => ⟨?_, rest, ?_⟩⟩
    · obtain ⟨other, hother⟩ := Pattern.namesVerb_iff.mp hp
      rw [hrun, hother, block, Check.binding_some other verb, ← hsame]
      exact (hrun b.primary r).symm
    · have hnone : p.verb? = none := Option.eq_none_iff_forall_ne_some.mpr fun other h =>
        hp (Pattern.namesVerb_iff.mpr ⟨other, h⟩)
      rw [hnone, block_none verb, ← hsame]
    · simp only [List.forall_mem_cons, List.not_mem_nil, false_implies, implies_true, and_true]
      exact ⟨hrun b.primary, hrun _⟩

end Validator

end HttpTranscoding
