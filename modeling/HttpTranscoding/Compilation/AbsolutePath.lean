/-!
# Absolute paths

Absolute paths in normal form: the names of the directories from the root on, none
of them empty, `.` or `..`. A path that begins with exactly two slashes keeps both,
since what they mean is up to the system; any other number of slashes means one.

`isBelow` is the test by which a file counts as lying in a directory.
-/

namespace HttpTranscoding

structure AbsolutePath where
  /-- Whether the path begins with two slashes. -/
  doubled : Bool
  names : List String
deriving DecidableEq

namespace AbsolutePath

/-- Whether a text begins with exactly two slashes. -/
def beginsDoubled : List Char → Bool
  | '/' :: '/' :: '/' :: _ => false
  | '/' :: '/' :: _ => true
  | _ => false

/-- Goes on from the directory that `names` lead to by one component of a path. The root
is its own parent. -/
def descend (names : List String) (component : String) : List String :=
  if component = "" || component = "." then names
  else if component = ".." then names.dropLast
  else names ++ [component]

/-- The names that a text leads through when it is read in the directory `names`. -/
def walk (names : List String) (text : String) : List String :=
  ((text.toList.splitOn '/').map String.ofList).foldl descend names

/-- The path that a text stands for in the directory `directory`. -/
def ofText (directory : AbsolutePath) (text : String) : AbsolutePath :=
  if text.toList.head? = some '/' then ⟨beginsDoubled text.toList, walk [] text⟩
  else ⟨directory.doubled, walk directory.names text⟩

def root : AbsolutePath :=
  ⟨false, []⟩

def text (p : AbsolutePath) : String :=
  (if p.doubled then "//" else "/") ++ "/".intercalate p.names

/-- The directory that holds the path; the root holds itself. -/
def parent (p : AbsolutePath) : AbsolutePath :=
  ⟨p.doubled, p.names.dropLast⟩

/-- Whether the text of `p` begins with the text of `directory` and a slash. The text of a
root ends in a slash as it is, so nothing is below a root by this test, but for the paths
with two slashes, which are below the root that has one. -/
def isBelow (p directory : AbsolutePath) : Bool :=
  if directory.names = [] then p.doubled && !directory.doubled
  else p.doubled == directory.doubled && directory.names.length < p.names.length &&
    directory.names.isPrefixOf p.names

/-- What leads from a directory to a path below it. -/
def relativeTo (p directory : AbsolutePath) : String :=
  match p.names.drop directory.names.length with
  | [] => "."
  | names => "/".intercalate names

end AbsolutePath

end HttpTranscoding
