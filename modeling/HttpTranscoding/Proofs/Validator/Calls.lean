import HttpTranscoding.Proofs.Validator.Methods

/-!
# Calls of a validator

To run a method and to check it come to the same thing. Both fail with one error and leave
the reporter as it was, or both record the same diagnostics, which a check also returns
(`Validator.run_and_check`); what was recorded before plays no part in it. So a call leaves
in any reporter what it leaves in an empty one (`Validator.perform_run`), and calls can be
made in any order, past those that fail.

* `Validator.mapM_perform_run`: what a sequence of calls gives back and leaves behind;
* `Validator.calls_are_independent`: all of this, and what it means to reorder calls.
-/

namespace HttpTranscoding

/-- A method to run or to check, with its bindings if they are given. -/
inductive Call
  | run (method : Method) (given : Option MethodBinding)
  | check (method : Method) (given : Option MethodBinding)

/-- What comes back from a call that does not fail: diagnostics from a check, nothing from a run. -/
abbrev Call.Answer := Except BindingError (Option (List Diagnostic))

namespace Validator

/-- Makes a call. A failure is what the call gives back; it does not end a sequence of calls. -/
def perform (v : Validator) : Call → StateM Reporter Call.Answer
  | .run method given => (·.map fun _ => none) <$> (v.run method given).run
  | .check method given => (·.map some) <$> (v.check method given).run

/-- What a call gives back to one who makes no other. -/
def answer (v : Validator) (c : Call) : Call.Answer :=
  ((v.perform c).run Reporter.empty).1

/-- What a call leaves in an empty reporter. -/
def contribution (v : Validator) (c : Call) : List Diagnostic :=
  ((v.perform c).run Reporter.empty).2.diagnostics

variable {v : Validator}

/-- A run and a check of a method fail alike, or record the same, whatever is recorded already. -/
theorem run_and_check (v : Validator) (method : Method) (given : Option MethodBinding) :
    (∃ e, v.violations method given = .error e ∧ ∀ r,
      (v.run method given).run r = (.error e, r) ∧
      (v.check method given).run r = (.error e, r)) ∨
    ∃ found new, v.violations method given = .ok found ∧
      new = found.map (·.diagnostic method) ∧ ∀ r,
        (v.run method given).run r = (.ok (), r.append new) ∧
        (v.check method given).run r = (.ok new, r.append new) := by
  cases h : v.violations method given with
  | error e => exact .inl ⟨e, rfl, fun r => by rw [run_eq, check_eq, h]; exact ⟨rfl, rfl⟩⟩
  | ok found =>
    exact .inr ⟨found, _, rfl, rfl, fun r => by rw [run_eq, check_eq, h]; exact ⟨rfl, rfl⟩⟩

theorem perform_run_run (method : Method) (given : Option MethodBinding) (r : Reporter) :
    (v.perform (.run method given)).run r =
      (((v.run method given).run r).1.map fun _ => none, ((v.run method given).run r).2) :=
  rfl

theorem perform_check_run (method : Method) (given : Option MethodBinding) (r : Reporter) :
    (v.perform (.check method given)).run r =
      (((v.check method given).run r).1.map some, ((v.check method given).run r).2) :=
  rfl

/-- A call gives and records the same, whatever is recorded already. -/
theorem exists_perform_run (v : Validator) (c : Call) :
    ∃ answer new, ∀ r, (v.perform c).run r = (answer, r.append new) := by
  have hnothing (r : Reporter) : r.append [] = r := by simp [Reporter.append]
  cases c with
  | run method given =>
    obtain ⟨e, -, h⟩ | ⟨-, new, -, -, h⟩ := run_and_check v method given
    · exact ⟨.error e, [], fun r => by rw [perform_run_run, (h r).1, hnothing]; rfl⟩
    · exact ⟨.ok none, new, fun r => by rw [perform_run_run, (h r).1]; rfl⟩
  | check method given =>
    obtain ⟨e, -, h⟩ | ⟨-, new, -, -, h⟩ := run_and_check v method given
    · exact ⟨.error e, [], fun r => by rw [perform_check_run, (h r).2, hnothing]; rfl⟩
    · exact ⟨.ok (some new), new, fun r => by rw [perform_check_run, (h r).2]; rfl⟩

/-- A call does to any reporter what it does to an empty one. -/
theorem perform_run (v : Validator) (c : Call) (r : Reporter) :
    (v.perform c).run r = (v.answer c, r.append (v.contribution c)) := by
  obtain ⟨answer, new, h⟩ := exists_perform_run v c
  rw [Validator.answer, contribution, h, h]
  simp [Reporter.append, Reporter.empty]

/-- Calls made in turn leave their contributions one after the other. -/
theorem mapM_perform_run (v : Validator) (calls : List Call) (r : Reporter) :
    (calls.mapM v.perform).run r =
      (calls.map v.answer, r.append (calls.map v.contribution).flatten) := by
  induction calls generalizing r with
  | nil => simp [Reporter.append]; rfl
  | cons c rest ih =>
    have hstep : ((c :: rest).mapM v.perform).run r =
        (((v.perform c).run r).1 :: ((rest.mapM v.perform).run ((v.perform c).run r).2).1,
          ((rest.mapM v.perform).run ((v.perform c).run r).2).2) := by
      rw [List.mapM_cons]
      rfl
    rw [hstep, perform_run, ih]
    simp [Reporter.append]

/-- Calls of a validator are independent of each other. A run and a check of a method fail with
the same error and leave the reporter as it was, or both record the same diagnostics after what
is recorded already, and a check returns exactly these. In a sequence of calls each gives back
what it would give back alone and leaves behind what it would leave in an empty reporter. To
make the calls in another order puts what they leave behind in that order. -/
theorem calls_are_independent (v : Validator) :
    (∀ method given,
      (∃ e, v.violations method given = .error e ∧ ∀ r,
        (v.run method given).run r = (.error e, r) ∧
        (v.check method given).run r = (.error e, r)) ∨
      ∃ found new, v.violations method given = .ok found ∧
        new = found.map (·.diagnostic method) ∧ ∀ r,
          (v.run method given).run r = (.ok (), r.append new) ∧
          (v.check method given).run r = (.ok new, r.append new)) ∧
    (∀ (calls : List Call) r, (calls.mapM v.perform).run r =
      (calls.map v.answer, r.append (calls.map v.contribution).flatten)) ∧
    (∀ (calls calls' : List Call) r, calls.Perm calls' →
      ∃ results results' : List (Call.Answer × List Diagnostic), results.Perm results' ∧
        (calls.mapM v.perform).run r =
          (results.map (·.1), r.append (results.map (·.2)).flatten) ∧
        (calls'.mapM v.perform).run r =
          (results'.map (·.1), r.append (results'.map (·.2)).flatten)) := by
  refine ⟨run_and_check v, mapM_perform_run v, fun calls calls' r hperm => ?_⟩
  refine ⟨calls.map fun c => (v.answer c, v.contribution c),
    calls'.map fun c => (v.answer c, v.contribution c), hperm.map _, ?_, ?_⟩
  · rw [mapM_perform_run, List.map_map, List.map_map]
    rfl
  · rw [mapM_perform_run, List.map_map, List.map_map]
    rfl

end Validator

end HttpTranscoding
