import HttpTranscoding.Compilation.AbsolutePath
/-!
# Compilations

How source files are compiled into a set of declarations. The compiler looks for
files in a list of directories, to which the directory of every source is added
that is not below one of them already. It is told to write the declarations of
the sources, and of all that they import, to a file in a workspace.

The targets of a compilation are its sources under the names that they have
relative to the first of the directories that they are below; a source that is
below none of them is no target.
-/

namespace HttpTranscoding

/-- What is to be compiled. -/
structure Compilation where
  searchPath : List AbsolutePath
  sources : List AbsolutePath
deriving DecidableEq

namespace Compilation

/-- The search path with the directory of `source` added, unless the source is below a
directory of the search path. -/
def extend (searchPath : List AbsolutePath) (source : AbsolutePath) : List AbsolutePath :=
  if searchPath.any source.isBelow then searchPath else searchPath ++ [source.parent]

/-- The compilation of `sources` that looks for imports in `includes` first, all named as
seen from `directory`. -/
def ofTexts (directory : AbsolutePath) (includes sources : List String) : Compilation :=
  let sources := sources.map (AbsolutePath.ofText directory)
  ⟨sources.foldl extend (includes.map (AbsolutePath.ofText directory)), sources⟩

/-- The names of the sources, as far as they are below the search path. -/
def targets (c : Compilation) : List String :=
  c.sources.filterMap fun source =>
    (c.searchPath.find? source.isBelow).map source.relativeTo

/-- The command that writes the declarations to a file in `workspace`. -/
def command (c : Compilation) (workspace : String) : List String :=
  ["protoc", "--descriptor_set_out=" ++ workspace ++ "/descriptor.pb", "--include_imports",
      "--include_source_info"] ++
    c.searchPath.map (fun p => "-I" ++ p.text) ++ c.sources.map (·.text)

/-- What is logged before the command is run. -/
def announcement (c : Compilation) (workspace : String) : String :=
  "[+] running: " ++ " ".intercalate (c.command workspace) ++ "\n"

/-- The environment variable that names the directory for workspaces. -/
def workspaceVariable : String :=
  "PBHTTP_PROTOC_TEMP_DIR"

/-- The directory to make a workspace in, if the environment names one that exists. -/
def workspaceParent? (lookup : String → Option String) (isDirectory : String → Bool) :
    Option String :=
  (lookup workspaceVariable).filter isDirectory

end Compilation

/-- A compiler and the declarations that come with it. -/
structure Compiler where
  /-- The directory of the files that declare the `http` option. -/
  annotations : String
  /-- The directory of the files that come with a compiler inside this program, if there
  is one; otherwise the compiler is another program. -/
  builtIn : Option String

/-- How a compiler is started. -/
inductive Runner
  | builtIn | program
deriving DecidableEq

/-- A command as it is handed to a compiler. -/
structure Invocation where
  runner : Runner
  arguments : List String
deriving DecidableEq

/-- The invocation for a command. The command looks in the current directory if it names no
other; after its own directories it looks in those of the compiler. -/
def Compiler.invocation (compiler : Compiler) (command : List String) : Invocation :=
  let own := if command.any ("-I".toList.isPrefixOf ·.toList) then [] else ["-I."]
  let common := command ++ own ++ ["-I" ++ compiler.annotations]
  match compiler.builtIn with
  | some directory => ⟨.builtIn, common ++ ["-I" ++ directory]⟩
  | none => ⟨.program, common⟩

/-- How an invocation ends. -/
inductive CompilerResult (α : Type)
  /-- The system could not start the compiler. What it reports of this is where the attempt
  failed and which versions of the compiler and its parts there are. -/
  | notStarted (report : String := "")
  | exited (status : Int)
  | written (declarations : α)

/-- What is logged of the system when the invocation ends so. -/
def CompilerResult.log {α : Type} : CompilerResult α → String
  | notStarted report => report
  | exited _ | written _ => ""

inductive CompilationError
  | notStarted (arguments : List String)
  | failed (status : Int)
deriving DecidableEq

def CompilationError.text : CompilationError → String
  | notStarted arguments => "Failed to run protoc: " ++ " ".intercalate arguments
  | failed status => "protoc failed with status " ++ toString status

namespace Compilation

def invocation (c : Compilation) (compiler : Compiler) (workspace : String) : Invocation :=
  compiler.invocation (c.command workspace)

/-- What a compilation yields when its invocation ends in `result`: the declarations, and
the names of the target files among them. -/
def outcome {α : Type} (c : Compilation) (invocation : Invocation) :
    CompilerResult α → Except CompilationError (α × List String)
  | .notStarted _ => .error (.notStarted invocation.arguments)
  | .exited status => .error (.failed status)
  | .written declarations => .ok (declarations, c.targets)

end Compilation

end HttpTranscoding
