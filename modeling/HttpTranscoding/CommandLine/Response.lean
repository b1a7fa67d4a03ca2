import HttpTranscoding.CommandLine.Machine
import HttpTranscoding.CommandLine.Usage
import HttpTranscoding.Schema.Build
import HttpTranscoding.Validator
/-!
# Responses

What the command line answers to its arguments. The declarations are read from a
file or compiled from sources; then every method of interest is validated. A
method whose binding cannot be resolved does not keep the others from being
validated: the failures are reported first and the diagnostics after them, both
in the order of the methods.

The exit status is 0 if every binding is valid, 1 if errors were reported, and 2
if the arguments or the declarations could not be read or a binding could not be
resolved. There is no response at all if a value is needed of a switch that was
given without one (`NoValue`).
-/

namespace HttpTranscoding.CommandLine

structure Response where
  status : Nat
  output : String
  log : String
deriving DecidableEq

/-- A switch was given without a value, and the value was needed. There is no response
then. -/
structure NoValue where
  switch : Switch
deriving DecidableEq

def NoValue.text (e : NoValue) : String :=
  "argument " ++ e.switch.title ++ ": no value"

/-- Why there are no declarations to validate. -/
inductive LoadError
  | file (error : FileError)
  | compilation (error : CompilationError)
  | schema (error : SchemaError)
deriving DecidableEq

def LoadError.text : LoadError → String
  | file error => error.text
  | compilation error => error.text
  | schema error => error.text

/-- The texts as lines, each with its line end. -/
def lines (texts : List String) : String :=
  String.join (texts.map (· ++ "\n"))

/-- The file of declarations to read; an empty name is none. -/
def Arguments.declarations? (a : Arguments) : Option String :=
  a.descriptorSet.filter (· ≠ "")

/-- The values of a switch, if none is missing. -/
def given (s : Switch) (values : List (Option String)) : Except NoValue (List String) :=
  values.mapM fun
    | some value => .ok value
    | none => .error ⟨s⟩

/-- The options that the environment and the arguments give. -/
def options (machine : Machine) (a : Arguments) : Except NoValue Options :=
  (given .allowRepeated a.allowed).map (Options.ofEnvironment machine.environment).allow

/-- The schema of the declarations that a file holds. -/
def loadFile (machine : Machine) (a : Arguments) (path : String) :
    Except NoValue (Except LoadError Schema) :=
  match machine.declarations path with
  | .error e => .ok (.error (.file e))
  | .ok files => do
    let targets ← a.targets.mapM (given .target)
    return (Schema.build files targets).mapError .schema

/-- The schema of the source files, and what is logged on the way to it. -/
def loadSources (machine : Machine) (a : Arguments) :
    Except NoValue (String × Except LoadError Schema) := do
  let includes ← given .searchPath a.includes
  let compilation := Compilation.ofTexts machine.directory includes a.protos
  let invocation := compilation.invocation machine.compiler machine.workspace
  let result := machine.compile invocation
  let announcement := if a.verbose then compilation.announcement machine.workspace else ""
  return (announcement ++ result.log, do
    let (files, targets) ← (compilation.outcome invocation result).mapError .compilation
    (Schema.build files (some targets)).mapError .schema)

/-- The schema to validate, and what is logged on the way to it. -/
def load (machine : Machine) (a : Arguments) :
    Except NoValue (String × Except LoadError Schema) :=
  match a.declarations? with
  | some path => (loadFile machine a path).map ("", ·)
  | none => loadSources machine a

/-- What is said of a method whose binding cannot be resolved. -/
def failureLine : Method × BindingError → String
  | (method, e) => method.location.text ++ ": error: " ++ e.text

/-- What is logged before validation if the log is to be verbose. -/
def preface (s : Schema) : List String :=
  s.targets.map (fun name => "[+] target: " ++ name) ++
    ["[+] " ++ toString s.methods.length ++ " method(s) to check"]

/-- What is logged after validation if the log is to be verbose. -/
def summary (failures : List (Method × BindingError)) (r : Reporter) : List String :=
  ["[+] " ++ toString r.errorCount ++ " error(s)"] ++
    if failures.isEmpty then []
    else ["[X] " ++ toString failures.length ++ " binding(s) could not be resolved"]

/-- The exit status of a validation. -/
def exitStatus (failures : List (Method × BindingError)) (r : Reporter) : Nat :=
  if failures.isEmpty then r.exitCode else 2

/-- The status of a validation of the schema and the lines that report it. -/
def validate (v : Validator) (verbose : Bool) : Nat × List String :=
  let (failures, reporter) := (v.runAll v.schema.methods).run Reporter.empty
  (exitStatus failures reporter,
    (if verbose then preface v.schema else []) ++ failures.map failureLine ++
      reporter.diagnostics.map (·.text) ++
      (if verbose then summary failures reporter else []))

/-- The response to arguments that could be read. -/
def answer (machine : Machine) (a : Arguments) : Except NoValue Response :=
  if a.protos.isEmpty && a.declarations?.isNone then
    .ok ⟨2, "", usage ++ lines ["No .proto files or descriptor set given."]⟩
  else do
    let options ← options machine a
    let (log, schema) ← load machine a
    return match schema with
      | .error e => ⟨2, "", log ++ lines ["Error loading protos: " ++ e.text]⟩
      | .ok schema =>
        let (status, report) := validate ⟨schema, options⟩ a.verbose
        ⟨status, "", log ++ lines report⟩

/-- The response to the arguments of the command line. -/
def respond (machine : Machine) (texts : List String) : Except NoValue Response :=
  match Arguments.ofTexts texts with
  | .error .help => .ok ⟨0, help, ""⟩
  | .error (.usage e) => .ok ⟨2, "", e.report⟩
  | .ok a => answer machine a

end HttpTranscoding.CommandLine
