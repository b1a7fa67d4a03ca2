import HttpTranscoding.Proofs.Query.Walk
import HttpTranscoding.Proofs.Validator.Methods
import Mathlib.Data.List.Flatten

/-!
# What a validation reads of a schema

The bindings of a method and what is wrong with them depend on the fields that the schema
has under each name and on nothing else of it: not on the order of its messages, nor on those
that no name stands for, nor on its methods. So schemas with the same fields validate
methods alike.

* `unbound_congr`, `MethodBinding.ofMethod?_congr`: bindings are resolved alike;
* `Check.walk_congr`: walks below query parameters find the same;
* `Validator.violations_congr`, `Validator.run_congr`: so do runs.
-/

namespace HttpTranscoding

variable {s s' : Schema}

/-! ## Bindings -/

theorem FieldPath.step_congr (h : s.fieldsOf = s'.fieldsOf) : step s = step s' := by
  funext path message element
  unfold step Schema.field?
  rw [h]

theorem FieldPath.follow_congr (h : s.fieldsOf = s'.fieldsOf) (path message element : String)
    (rest : List String) :
    follow s path message element rest = follow s' path message element rest := by
  induction rest generalizing message element with
  | nil => rw [follow, follow, step_congr h]
  | cons next rest ih =>
    rw [follow, follow, step_congr h]
    simp only [ih]

theorem FieldPath.resolve_congr (h : s.fieldsOf = s'.fieldsOf) : resolve s = resolve s' := by
  funext message path
  exact follow_congr h ..

theorem unboundPaths_congr (h : s.fieldsOf = s'.fieldsOf) (message : String)
    (bound : List (List Field)) : unboundPaths s message bound = unboundPaths s' message bound := by
  induction hn : bound.flatten.length using Nat.strongRecOn generalizing message bound with
  | ind n ih =>
    rw [unboundPaths, unboundPaths, h]
    refine List.flatMap_congr fun f _ => ?_
    by_cases free : remainders f bound = []
    · simp only [free, ↓reduceDIte]
    · cases nested : f.nested? with
      | none => rfl
      | some t =>
        simp only [free, ↓reduceDIte]
        rw [ih _ (hn ▸ length_flatten_remainders_lt free) t.fullName _ rfl]

theorem unbound_congr (h : s.fieldsOf = s'.fieldsOf) : unbound s = unbound s' := by
  funext message bound
  exact unboundPaths_congr h ..

theorem Binding.resolve_congr (h : s.fieldsOf = s'.fieldsOf) : resolve s = resolve s' := by
  funext request rule
  unfold resolve share
  rw [FieldPath.resolve_congr h, unbound_congr h]

theorem MethodBinding.ofMethod?_congr (h : s.fieldsOf = s'.fieldsOf) :
    ofMethod? s = ofMethod? s' := by
  funext method
  unfold ofMethod? resolve
  rw [Binding.resolve_congr h]

/-! ## Walks -/

namespace Check

theorem walk_congr (h : s.fieldsOf = s'.fieldsOf) (allowed V : NameSet) (f : Field) :
    walk s allowed f V = walk s' allowed f V := by
  induction V, f using walk_induction s allowed with
  | stopped V f hstop => rw [walk_of_stopped hstop, walk_of_stopped hstop]
  | opened V f t hf ht ih =>
    rw [walk_of_opened hf ht, walk_of_opened hf ht, ← h]
    exact congrArg _ (List.flatMap_congr ih)

theorem parameters_congr (h : s.fieldsOf = s'.fieldsOf) : parameters s = parameters s' := by
  funext o b
  unfold parameters
  rw [parameterFields_eq, parameterFields_eq]
  exact List.flatMap_congr fun f _ => walk_congr h o.allowed ∅ f

theorem bindings_congr (h : s.fieldsOf = s'.fieldsOf) : bindings s = bindings s' := by
  funext o method b
  unfold bindings binding
  rw [parameters_congr h]

end Check

/-! ## Runs -/

namespace Validator

variable {o : Options}

theorem violations_congr (h : s.fieldsOf = s'.fieldsOf) (method : Method)
    (given : Option MethodBinding) :
    violations ⟨s, o⟩ method given = violations ⟨s', o⟩ method given := by
  unfold violations bindings?
  rw [MethodBinding.ofMethod?_congr h, Check.bindings_congr h]

/-- Schemas with the same fields under every name validate methods alike. -/
theorem run_congr (h : s.fieldsOf = s'.fieldsOf) : run ⟨s, o⟩ = run ⟨s', o⟩ := by
  funext method given
  unfold run
  rw [violations_congr h]

theorem validateMethods_congr (h : s.fieldsOf = s'.fieldsOf) :
    validateMethods ⟨s, o⟩ = validateMethods ⟨s', o⟩ := by
  funext methods
  induction methods with
  | nil => rfl
  | cons m rest ih => rw [validateMethods, validateMethods, ih, run_congr h]

end Validator

end HttpTranscoding
