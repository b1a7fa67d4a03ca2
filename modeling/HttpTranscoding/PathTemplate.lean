import HttpTranscoding.Text.Blank
/-!
# Path templates

The variables of a path template such as `/v1/{name=shelves/*}/books`. A variable
is written between an opening brace and the next closing brace: a name, with
blanks around it if one likes, and then perhaps an equals sign and a pattern. An
opening brace that is not followed by a variable is ordinary text.

A variable ends at the first closing brace after its opening brace, so the
template is cut at its closing braces and each piece yields at most one variable
(`PathTemplate.variableNames`).
-/

namespace HttpTranscoding.PathTemplate

/-- Whether `c` can be part of a variable's name. -/
def isNameChar (c : Char) : Bool :=
  c ≠ '}' && c ≠ '=' && !Text.isBlank c

/-- The name of the variable whose text between the braces is `body`. -/
def variableName? (body : List Char) : Option (List Char) :=
  let text := body.dropWhile Text.isBlank
  let name := text.takeWhile isNameChar
  match name, (text.dropWhile isNameChar).dropWhile Text.isBlank with
  | [], _ => none
  | _ :: _, [] => some name
  | _ :: _, c :: _ => if c = '=' then some name else none

/-- The first variable of a piece of a template that a closing brace follows. -/
def firstVariable? : List Char → Option (List Char)
  | [] => none
  | c :: rest =>
    if c = '{' then (variableName? rest).or (firstVariable? rest) else firstVariable? rest

/-- The pieces of a template that a closing brace follows. -/
def closedPieces (template : List Char) : List (List Char) :=
  (template.splitOn '}').dropLast

/-- The names of the variables of a template, in order. -/
def variableNames (template : List Char) : List (List Char) :=
  (closedPieces template).filterMap firstVariable?

/-- `variableNames` on strings. -/
def namesIn (template : String) : List String :=
  (variableNames template.toList).map String.ofList

end HttpTranscoding.PathTemplate
