/-!
# Qualified names

Declarations are known by the names of the package and of the messages around
them, joined by dots. A reference may begin with a dot to say that its name is
complete; names are compared without such dots.
-/

namespace HttpTranscoding.Name

/-- `name` as declared in `scope`; the outermost scope has no name. -/
def qualify (scope name : String) : String :=
  if scope = "" then name else scope ++ "." ++ name

/-- What follows the last dot of a name. -/
def lastPart (name : String) : String :=
  String.ofList ((name.toList.splitOn '.').getLastD [])

/-- The name that a reference refers to. -/
def absolute (reference : String) : String :=
  String.ofList (reference.toList.dropWhile (· = '.'))

end HttpTranscoding.Name
