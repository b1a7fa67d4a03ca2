import HttpTranscoding.Proofs.Binding.Resolution
import HttpTranscoding.Validator

/-!
# Runs of a validator

A run resolves all the bindings of a method before it records anything
(`Validator.run_eq`). So it either fails and leaves the reporter alone, or records all
that it finds, and it fails only for a field path that leads nowhere. To record a
violation is to fill its template with its arguments, which never fails, whatever names
the arguments hold (`Violation.reportAll_eq_ok`).

* `Validator.run_all_or_nothing`: all of this about one run.
-/

namespace HttpTranscoding

namespace Violation

/-- Reports violations by a method in turn, each as its template filled with arguments. -/
def reportAll (method : Method) (found : List Violation) (r : Reporter) :
    Except Template.FillError Reporter :=
  found.foldlM
    (fun r v => (r.error method.location v.kind v.template (v.arguments method)).map (·.2)) r

theorem error_eq_ok (method : Method) (v : Violation) (r : Reporter) :
    r.error method.location v.kind v.template (v.arguments method) =
      .ok (v.diagnostic method, r.report (v.diagnostic method)) := by
  unfold Reporter.error
  rw [instantiate_template]
  rfl

/-- The template of every violation takes what the violation puts into it. -/
theorem reportAll_eq_ok (method : Method) (found : List Violation) (r : Reporter) :
    reportAll method found r = .ok (r.append (found.map (·.diagnostic method))) := by
  unfold reportAll
  induction found generalizing r with
  | nil => simp [Reporter.append, pure, Except.pure]
  | cons v rest ih =>
    rw [List.foldlM_cons, error_eq_ok]
    refine (ih (r.report (v.diagnostic method))).trans ?_
    simp [Reporter.report, Reporter.append]

end Violation

namespace Validator

variable {v : Validator} {method : Method} {given : Option MethodBinding} {r : Reporter}

/-- Nothing is recorded before all the bindings of the method are resolved. -/
theorem run_eq (v : Validator) (method : Method) (given : Option MethodBinding) (r : Reporter) :
    (v.run method given).run r =
      match v.violations method given with
      | .error e => (.error e, r)
      | .ok found => (.ok (), r.append (found.map (·.diagnostic method))) := by
  unfold run
  cases v.violations method given <;> rfl

theorem violations_some (v : Validator) (method : Method) (b : MethodBinding) :
    v.violations method (some b) = .ok (Check.bindings v.schema v.options method b) :=
  rfl

theorem exists_violations_none_iff : (∃ found, v.violations method none = .ok found) ↔
    ∃ b?, MethodBinding.ofMethod? v.schema method = .ok b? := by
  unfold violations bindings?
  cases MethodBinding.ofMethod? v.schema method <;> simp [Except.map]

/-- A run fails for its bindings or not at all. -/
theorem exists_run_error_iff :
    (∃ e r', (v.run method given).run r = (.error e, r')) ↔
      ¬∃ found, v.violations method given = .ok found := by
  rw [run_eq]
  cases v.violations method given with
  | error e => exact ⟨fun _ => by simp, fun _ => ⟨e, r, rfl⟩⟩
  | ok found =>
    constructor
    · rintro ⟨e, r', h⟩
      exact absurd (Prod.mk.inj h).1 (by simp)
    · exact fun h => absurd ⟨found, rfl⟩ h

/-- A run fails for a field path of a rule of the method that leads nowhere. -/
theorem exists_run_none_error_iff :
    (∃ e r', (v.run method none).run r = (.error e, r')) ↔
      ∃ rule, method.http = some rule ∧ ∃ x ∈ rule :: rule.additional, ∃ path ∈ x.references,
        ∃ e, FieldPath.resolve v.schema method.input path = .error e := by
  rw [exists_run_error_iff, exists_violations_none_iff, MethodBinding.exists_ofMethod?_iff]
  simp only [exists_error_iff, Classical.not_forall, exists_prop]

/-- A run fails and leaves the reporter as it was, or it records all that it finds. It fails
if and only if some field path leads nowhere that the `http` option of the method writes, in
its own rule or in an additional one, and never when it is given the bindings. All that it
records are errors at the place of the method, each the filled template of a violation. -/
theorem run_all_or_nothing (v : Validator) (method : Method) (r : Reporter) :
    (∀ given, (∃ e, (v.run method given).run r = (.error e, r)) ∨
      ∃ found r', v.violations method given = .ok found ∧
        (v.run method given).run r = (.ok (), r') ∧ Violation.reportAll method found r = .ok r' ∧
        ∃ new, r'.diagnostics = r.diagnostics ++ new ∧
          ∀ d ∈ new, d.severity = .error ∧ d.location = method.location) ∧
    ((∃ e r', (v.run method none).run r = (.error e, r')) ↔
      ∃ rule, method.http = some rule ∧ ∃ x ∈ rule :: rule.additional, ∃ path ∈ x.references,
        ∃ e, FieldPath.resolve v.schema method.input path = .error e) ∧
    (∀ b, ∃ r', (v.run method (some b)).run r = (.ok (), r')) := by
  refine ⟨fun given => ?_, exists_run_none_error_iff, fun b => ?_⟩
  · rw [run_eq]
    cases hfound : v.violations method given with
    | error e => exact .inl ⟨e, rfl⟩
    | ok found =>
      refine .inr ⟨found, _, rfl, rfl, Violation.reportAll_eq_ok method found r, _, rfl, ?_⟩
      simp [Violation.diagnostic]
  · rw [run_eq, violations_some]
    exact ⟨_, rfl⟩

end Validator

end HttpTranscoding
