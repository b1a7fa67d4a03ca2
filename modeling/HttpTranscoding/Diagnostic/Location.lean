/-!
# Locations

Where a declaration stands in its source file. Lines and columns count from 1
and are missing when the declarations come without source positions; the name
of the declared element then tells the reader where to look.
-/

namespace HttpTranscoding

structure Location where
  file : String
  line : Option Int
  column : Option Int
  element : String
deriving DecidableEq

namespace Location

/-- A location that is known only by its file and the element declared there. -/
def ofElement (file element : String) : Location :=
  ⟨file, none, none, element⟩

def unknown : Location :=
  ofElement "" ""

/-- The most precise form that the location has the data for. -/
def text (l : Location) : String :=
  match l.line, l.column with
  | some line, some column => l.file ++ ":" ++ toString line ++ ":" ++ toString column
  | some line, none => l.file ++ ":" ++ toString line
  | none, _ =>
    if l.element = "" then (if l.file = "" then "<unknown>" else l.file)
    else if l.file = "" then l.element
    else l.file ++ ": " ++ l.element

end Location

end HttpTranscoding
