import HttpTranscoding.CommandLine.Response
import HttpTranscoding.Descriptor.FileSet
/-!
# The program

Asks the system for what the response to the arguments needs and shows the
response. The program comes without a compiler: what has to be compiled is
answered as if the compiler could not be started.
-/

namespace HttpTranscoding.CommandLine

/-- The error with the given number. An error that has a name here is put in the words of
that name, any other in those of the system. -/
def FileError.ofNumber (number : Nat) (reason path : String) : FileError :=
  let named := [notFound path, accessDenied path, notDirectory path, isDirectory path,
    nameTooLong path]
  (named.find? (·.number = number)).getD ⟨number, reason, path⟩

/-- The error for a file that the system fails to read. Some of its parts report numbers
below zero, which arrive as words of 32 bits. -/
def FileError.ofSystem (path : String) : IO.Error → FileError
  | .alreadyExists _ number reason | .otherError number reason | .resourceBusy number reason
  | .resourceVanished number reason | .unsupportedOperation number reason
  | .hardwareFault number reason | .unsatisfiedConstraints number reason
  | .illegalOperation number reason | .protocolError number reason | .timeExpired number reason
  | .interrupted _ number reason | .noFileOrDirectory _ number reason
  | .invalidArgument _ number reason | .permissionDenied _ number reason
  | .resourceExhausted _ number reason | .inappropriateType _ number reason
  | .noSuchThing _ number reason => ofNumber number.toInt32.toInt.natAbs reason path
  | .unexpectedEof | .userError _ => ⟨5, "Input/output error", path⟩

/-- Why the program ends without a response. -/
inductive Failure
  | noValue (error : NoValue)
  /-- The file was read, but holds something else than declarations. -/
  | malformed (path : String)

def Failure.text : Failure → String
  | noValue error => error.text
  | malformed path => "no declarations in " ++ Text.quoted path

/-- The declarations of a stored file set. A file that the system cannot read is for the
response to report; there is no response to a file that holds something else. -/
def readFileSet (path : String) : IO (Except Failure (Except FileError (List FileDecl))) := do
  match ← (IO.FS.readBinFile path).toBaseIO with
  | .error e => return .ok (.error (.ofSystem path e))
  | .ok content =>
    match FileDecl.ofFileSet? content.toList with
    | none => return .error (.malformed path)
    | some files => return .ok (.ok files)

/-- The file to read before arguments are answered, if they name one. It is not read if the
name of an allowed field is missing, as there is no response then in any case. -/
def fileToRead? (texts : List String) : Option String :=
  match Arguments.ofTexts texts with
  | .ok a => if a.allowed.all (·.isSome) then a.declarations? else none
  | .error _ => none

/-- The directory that compilations work in. -/
def findWorkspace : IO String := do
  let named ← IO.getEnv Compilation.workspaceVariable
  let directory ← IO.currentDir
  let isDirectory ← (directory / named.getD "").isDir
  let parent? := Compilation.workspaceParent? (fun _ => named) (fun _ => isDirectory)
  return parent?.getD "/tmp" ++ "/pbhttp"

/-- The machine that the program runs on, as far as the arguments make use of it. -/
def Machine.ofSystem (texts : List String) : IO (Except Failure Machine) := do
  let names ← IO.getEnv Options.variableName
  let directory ← IO.currentDir
  let workspace ← findWorkspace
  let declarations ←
    match fileToRead? texts with
    | some path => readFileSet path
    | none => pure (.ok (.error (.notFound "")))
  return declarations.map fun declarations => {
    environment := fun name => if name = Options.variableName then names else none
    directory := .ofText .root directory.toString
    declarations := fun _ => declarations
    workspace
    compiler := ⟨"/usr/include", none⟩
    compile := fun _ => .notStarted }

/-- Answers the arguments and returns the exit status, which is 1 without a response. -/
def run (arguments : List String) : IO UInt32 := do
  let machine ← Machine.ofSystem arguments
  match machine.bind fun machine => (respond machine arguments).mapError .noValue with
  | .error e =>
    IO.eprintln e.text
    return 1
  | .ok response =>
    IO.print response.output
    IO.eprint response.log
    return response.status.toUInt32

end HttpTranscoding.CommandLine

def main (arguments : List String) : IO UInt32 :=
  HttpTranscoding.CommandLine.run arguments
