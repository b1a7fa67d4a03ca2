import HttpTranscoding.Compilation.Basic
import HttpTranscoding.Schema.Declaration
import HttpTranscoding.Text.Quoted
/-!
# Machines

What the command line asks of the machine that it runs on: the environment, the
current directory, the compiled declarations that files hold, and the compiler.
-/

namespace HttpTranscoding.CommandLine

/-- Why a file could not be read: the number and the words of the system, and the name of
the file. -/
structure FileError where
  number : Nat
  reason : String
  path : String
deriving DecidableEq

namespace FileError

def notFound (path : String) : FileError :=
  ⟨2, "No such file or directory", path⟩

def accessDenied (path : String) : FileError :=
  ⟨13, "Permission denied", path⟩

def notDirectory (path : String) : FileError :=
  ⟨20, "Not a directory", path⟩

def isDirectory (path : String) : FileError :=
  ⟨21, "Is a directory", path⟩

def nameTooLong (path : String) : FileError :=
  ⟨36, "File name too long", path⟩

def text (e : FileError) : String :=
  "[Errno " ++ toString e.number ++ "] " ++ e.reason ++ ": " ++ Text.quoted e.path

end FileError

structure Machine where
  environment : String → Option String
  directory : AbsolutePath
  /-- The declarations that a file holds. -/
  declarations : String → Except FileError (List FileDecl)
  /-- A directory that is made for the compiler to write in. -/
  workspace : String
  compiler : Compiler
  compile : Invocation → CompilerResult (List FileDecl)

end HttpTranscoding.CommandLine
