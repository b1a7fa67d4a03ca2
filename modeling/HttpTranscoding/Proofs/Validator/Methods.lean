import HttpTranscoding.Proofs.Validator.Run

/-!
# Runs over several methods

Methods are run up to the first failure (`Validator.validateMethods`), or all of them
while the failures are collected (`Validator.runAll`). Both come down to what becomes of
each method by itself: which of them fail (`Validator.failures`), and what the others
yield when they are checked alone (`Validator.findings`).

* `Validator.runAll_run`: a run past failures finds all of both;
* `Validator.validateMethods_of_failures_nil`, `Validator.validateMethods_of_error`: a run up
  to the first failure finds what all methods yield, or those before the one that fails.
-/

namespace HttpTranscoding.Validator

variable {v : Validator} {method : Method} {methods before after : List Method}

/-- A check records what it returns, and fails where a run does. -/
theorem check_eq (v : Validator) (method : Method) (given : Option MethodBinding) (r : Reporter) :
    (v.check method given).run r =
      match v.violations method given with
      | .error e => (.error e, r)
      | .ok found => (.ok (found.map (·.diagnostic method)),
          r.append (found.map (·.diagnostic method))) := by
  unfold check run
  cases v.violations method given <;> rfl

/-- The methods whose bindings cannot be resolved, each with the error. -/
def failures (v : Validator) (methods : List Method) : List (Method × BindingError) :=
  methods.filterMap fun m =>
    match MethodBinding.ofMethod? v.schema m with
    | .ok _ => none
    | .error e => some (m, e)

/-- What the other methods yield, each checked alone with an empty reporter. -/
def findings (v : Validator) (methods : List Method) : List Diagnostic :=
  methods.flatMap fun m =>
    match ((v.check m none).run Reporter.empty).1 with
    | .ok found => found
    | .error _ => []

/-- A method fails by itself, or its run records what a check of it alone yields. -/
theorem run_cases (v : Validator) (m : Method) :
    (∃ e, MethodBinding.ofMethod? v.schema m = .error e ∧ v.failures [m] = [(m, e)] ∧
      v.findings [m] = [] ∧ ∀ r, (v.run m none).run r = (.error e, r)) ∨
    (v.failures [m] = [] ∧ ∀ r, (v.run m none).run r = (.ok (), r.append (v.findings [m]))) := by
  cases hb : MethodBinding.ofMethod? v.schema m with
  | error e =>
    have hviolations : v.violations m none = .error e := by
      simp only [violations, bindings?, hb, Except.map]
    refine .inl ⟨e, rfl, by simp [failures, hb], ?_, fun r => ?_⟩
    · simp [findings, check_eq, hviolations]
    · simp [run_eq, hviolations]
  | ok b? =>
    obtain ⟨found, hviolations⟩ := exists_violations_none_iff.mpr ⟨b?, hb⟩
    refine .inr ⟨by simp [failures, hb], fun r => ?_⟩
    simp [findings, check_eq, run_eq, hviolations]

theorem failures_cons (v : Validator) (m : Method) (rest : List Method) :
    v.failures (m :: rest) = v.failures [m] ++ v.failures rest := by
  rw [← List.singleton_append, failures, List.filterMap_append]
  rfl

theorem findings_cons (v : Validator) (m : Method) (rest : List Method) :
    v.findings (m :: rest) = v.findings [m] ++ v.findings rest := by
  rw [← List.singleton_append, findings, List.flatMap_append]
  rfl

theorem runAll_cons (v : Validator) (m : Method) (rest : List Method) (r : Reporter) :
    (v.runAll (m :: rest)).run r =
      (match ((v.run m none).run r).1 with
        | .ok _ => ((v.runAll rest).run ((v.run m none).run r).2).1
        | .error e => (m, e) :: ((v.runAll rest).run ((v.run m none).run r).2).1,
      ((v.runAll rest).run ((v.run m none).run r).2).2) :=
  rfl

/-- Where a run goes past failures, it collects them and records what the other methods yield. -/
theorem runAll_run (v : Validator) (methods : List Method) (r : Reporter) :
    (v.runAll methods).run r = (v.failures methods, r.append (v.findings methods)) := by
  induction methods generalizing r with
  | nil => simp [runAll, failures, findings, Reporter.append]; rfl
  | cons m rest ih =>
    rw [runAll_cons, failures_cons, findings_cons]
    obtain ⟨e, -, hfail, hfind, hrun⟩ | ⟨hfail, hrun⟩ := run_cases v m
    · simp [hrun, ih, hfail, hfind]
    · simp [hrun, ih, hfail, Reporter.append]

theorem validateMethods_cons (v : Validator) (m : Method) (rest : List Method) (r : Reporter) :
    (v.validateMethods (m :: rest)).run r =
      match (v.run m none).run r with
      | (.ok _, r') => (v.validateMethods rest).run r'
      | (.error e, r') => (.error e, r') := by
  have hbind : (v.validateMethods (m :: rest)).run r = ExceptT.bindCont
      (fun _ => v.validateMethods rest) ((v.run m none).run r).1 ((v.run m none).run r).2 := rfl
  rw [hbind]
  cases (v.run m none).run r with
  | mk outcome r' => cases outcome <;> rfl

/-- Methods that do not fail are run one after the other. -/
theorem validateMethods_append (h : v.failures before = []) (r : Reporter) :
    (v.validateMethods (before ++ after)).run r =
      (v.validateMethods after).run (r.append (v.findings before)) := by
  induction before generalizing r with
  | nil => simp [findings, Reporter.append]
  | cons m rest ih =>
    rw [failures_cons, List.append_eq_nil_iff] at h
    obtain ⟨e, -, hfail, -⟩ | ⟨-, hrun⟩ := run_cases v m
    · simp [hfail] at h
    · rw [List.cons_append, validateMethods_cons, hrun, findings_cons v m rest]
      simp [ih h.2, Reporter.append]

/-- Where no method fails, a run up to the first failure is a run of all. -/
theorem validateMethods_of_failures_nil (h : v.failures methods = []) (r : Reporter) :
    (v.validateMethods methods).run r = (.ok (), r.append (v.findings methods)) := by
  have happend : (v.validateMethods (methods ++ [])).run r =
      (v.validateMethods []).run (r.append (v.findings methods)) := validateMethods_append h r
  rwa [List.append_nil] at happend

/-- The first of the failures is that of a method before which none fails. -/
theorem exists_append_of_failures_cons {failed : Method × BindingError}
    {others : List (Method × BindingError)} (h : v.failures methods = failed :: others) :
    ∃ before after, methods = before ++ failed.1 :: after ∧ v.failures before = [] ∧
      MethodBinding.ofMethod? v.schema failed.1 = .error failed.2 := by
  obtain ⟨before, m, after, rfl, hbefore, hm, -⟩ := List.filterMap_eq_cons_iff.mp h
  cases hb : MethodBinding.ofMethod? v.schema m with
  | ok b? => simp [hb] at hm
  | error e =>
    obtain rfl : (m, e) = failed := by simpa [hb] using hm
    exact ⟨before, after, rfl, List.filterMap_eq_nil_iff.mpr hbefore, hb⟩

/-- The method that fails first ends the run. -/
theorem validateMethods_of_error {e : BindingError} (h : v.failures before = [])
    (he : MethodBinding.ofMethod? v.schema method = .error e) (r : Reporter) :
    (v.validateMethods (before ++ method :: after)).run r =
      (.error e, r.append (v.findings before)) := by
  obtain ⟨e', he', -, -, hrun⟩ | ⟨hfail, -⟩ := run_cases v method
  · obtain rfl := Except.error.inj (he'.symm.trans he)
    rw [validateMethods_append h, validateMethods_cons, hrun]
  · simp [failures, he] at hfail

/-! ## Exit codes -/

/-- Everything that is recorded of methods is an error. -/
theorem severity_of_mem_findings {d : Diagnostic} (h : d ∈ v.findings methods) :
    d.severity = .error := by
  obtain ⟨m, -, hd⟩ := List.mem_flatMap.mp h
  rw [check_eq] at hd
  cases hm : v.violations m none with
  | error e => simp [hm] at hd
  | ok found =>
    obtain ⟨violation, -, rfl⟩ : ∃ x ∈ found, x.diagnostic m = d := by simpa [hm] using hd
    rfl

theorem exitCode_eq_zero_iff {r : Reporter} :
    r.exitCode = 0 ↔ ∀ d ∈ r.diagnostics, d.severity ≠ .error := by
  simp [Reporter.exitCode, Reporter.hasErrors, Reporter.errorCount, Reporter.errors]

theorem exitCode_findings (v : Validator) (methods : List Method) :
    Reporter.exitCode ⟨v.findings methods⟩ = if v.findings methods = [] then 0 else 1 := by
  have herrors : Reporter.errors ⟨v.findings methods⟩ = v.findings methods :=
    List.filter_eq_self.mpr fun d hd => by simp [severity_of_mem_findings hd]
  unfold Reporter.exitCode Reporter.hasErrors Reporter.errorCount
  rw [herrors]
  cases v.findings methods <;> rfl

end HttpTranscoding.Validator
