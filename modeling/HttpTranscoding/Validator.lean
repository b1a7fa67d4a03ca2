import HttpTranscoding.Check.Binding
import HttpTranscoding.Diagnostic.Reporter
/-!
# Validators

A validator checks the methods of a schema under given options and records what
it finds in a reporter. The reporter outlives a failure: when the binding of a
method cannot be resolved, what was recorded before stays recorded.

`run` records what is wrong with a method, `check` also returns it, and
`validateModel` runs all methods of the schema up to the first failure.
-/

namespace HttpTranscoding

/-- An activity that records in a reporter and may fail with an `ε`. -/
abbrev Reporting (ε α : Type) := ExceptT ε (StateM Reporter) α

/-- Why methods that are given by name could not all be validated. -/
inductive ValidationError
  | unknownMethod (name : String)
  | binding (error : BindingError)
deriving DecidableEq

structure Validator where
  schema : Schema
  options : Options

namespace Validator

/-- Records violations by a method. -/
def record {ε : Type} (method : Method) (found : List Violation) : Reporting ε Unit :=
  modify (·.append (found.map (·.diagnostic method)))

/-- The given bindings of a method, or else those that it declares. -/
def bindings? (v : Validator) (method : Method) (given : Option MethodBinding) :
    Except BindingError (Option MethodBinding) :=
  match given with
  | some b => .ok (some b)
  | none => MethodBinding.ofMethod? v.schema method

/-- What is wrong with a method; one without a binding has nothing wrong with it. -/
def violations (v : Validator) (method : Method) (given : Option MethodBinding) :
    Except BindingError (List Violation) :=
  (v.bindings? method given).map fun
    | none => []
    | some b => Check.bindings v.schema v.options method b

/-- Records what is wrong with a method. -/
def run (v : Validator) (method : Method) (given : Option MethodBinding) :
    Reporting BindingError Unit := do
  let found ← v.violations method given
  record method found

/-- What `run` reports to an empty reporter, recorded in the common one as well. -/
def check (v : Validator) (method : Method) (given : Option MethodBinding) :
    Reporting BindingError (List Diagnostic) := do
  let (outcome, own) := (v.run method given).run Reporter.empty
  outcome
  modify (·.append own.diagnostics)
  return own.diagnostics

/-- Runs methods in turn, up to the first whose bindings cannot be resolved. -/
def validateMethods (v : Validator) : List Method → Reporting BindingError Unit
  | [] => pure ()
  | method :: rest => do
    v.run method none
    v.validateMethods rest

/-- Runs the methods with the given names in turn. A name is looked up when its turn comes,
so what is wrong with later names does not keep earlier ones from being run. -/
def validateNamed (v : Validator) : List String → Reporting ValidationError Unit
  | [] => pure ()
  | name :: rest => do
    match v.schema.method? name with
    | none => throw (.unknownMethod name)
    | some method =>
      (v.run method none).adapt .binding
      v.validateNamed rest

/-- Runs the methods of the schema. -/
def validateModel (v : Validator) : Reporting BindingError Unit :=
  v.validateMethods v.schema.methods

/-- Runs every method of the schema, past failures too, and collects these. -/
def runAll (v : Validator) : List Method → StateM Reporter (List (Method × BindingError))
  | [] => pure []
  | method :: rest => do
    let outcome ← (v.run method none).run
    let failures ← v.runAll rest
    return match outcome with
      | .ok _ => failures
      | .error e => (method, e) :: failures

end Validator

end HttpTranscoding
