import HttpTranscoding.Text.Digit
import HttpTranscoding.Text.Quoted
/-!
# Arguments

Reads the arguments of the command line. Each argument is first told apart by
itself (`Piece.ofText`): a switch, which may be shortened to any beginning that
no other switch has and may have a value attached to it, or a word. After the
first `--` all arguments are words. The pieces are then read in order
(`Progress.read`): a switch that takes a value takes the word after it if it has
nothing attached, and the first unbroken run of other words names the source
files. An attached `--` stands for no value at all. What is left over is reported
once everything has been read.

These are the rules of `argparse` in its releases before 3.11.9 and 3.12.3. Later
ones take an attached `--` for a value (`Progress.attachedValue`), and do not reject
a short `-h` for what is written behind it (`Progress.helpWith`).
-/

namespace HttpTranscoding.CommandLine

/-! ## Switches -/

inductive Switch
  | help | searchPath | descriptorSet | target | allowRepeated | verbose
deriving DecidableEq

namespace Switch

/-- Every switch, in the order in which the usage lists them. -/
def all : List Switch :=
  [help, searchPath, descriptorSet, target, allowRepeated, verbose]

/-- The ways to write the switch. -/
def spellings : Switch → List String
  | help => ["-h", "--help"]
  | searchPath => ["-I", "--include"]
  | descriptorSet => ["--descriptor-set"]
  | target => ["--target"]
  | allowRepeated => ["--allow-repeated-field"]
  | verbose => ["--verbose"]

def takesValue : Switch → Bool
  | help | verbose => false
  | searchPath | descriptorSet | target | allowRepeated => true

/-- How messages refer to the switch. -/
def title (s : Switch) : String :=
  "/".intercalate s.spellings

/-- Every spelling with its switch. -/
def table : List (String × Switch) :=
  all.flatMap fun s => s.spellings.map (·, s)

/-- The switch with the given spelling. -/
def ofSpelling? (text : String) : Option Switch :=
  (table.find? (·.1 = text)).map (·.2)

end Switch

/-- What is wrong with the arguments. -/
inductive UsageError
  /-- Several switches begin like `text`. -/
  | ambiguous (text : String) (spellings : List String)
  | missingValue (s : Switch)
  /-- A value is attached to a switch that takes none. -/
  | needlessValue (s : Switch) (value : String)
  | unrecognized (texts : List String)
deriving DecidableEq

def UsageError.text : UsageError → String
  | ambiguous text spellings =>
    "ambiguous option: " ++ text ++ " could match " ++ ", ".intercalate spellings
  | missingValue s => "argument " ++ s.title ++ ": expected one argument"
  | needlessValue s value =>
    "argument " ++ s.title ++ ": ignored explicit argument " ++ Text.quoted value
  | unrecognized texts => "unrecognized arguments: " ++ " ".intercalate texts

/-! ## Pieces -/

inductive Piece
  | word (text : String)
  /-- The first `--`. -/
  | separator
  /-- A switch in its short or long spelling, with what is written behind it. -/
  | switch (s : Switch) (short : Bool) (attached : Option (List Char))
  | unknown (text : String)

namespace Piece

/-- A text cut at its first equals sign, if it has one. -/
def cut (text : List Char) : List Char × Option (List Char) :=
  match text.dropWhile (· ≠ '=') with
  | [] => (text, none)
  | _ :: value => (text.takeWhile (· ≠ '='), some value)

/-- Whether a text is a minus sign and a decimal number, perhaps with a line end. -/
def isNegativeNumber : List Char → Bool
  | '-' :: text =>
    let text := if text.getLast? = some '\n' then text.dropLast else text
    match text.dropWhile Text.isDecimal with
    | [] => !text.isEmpty
    | c :: decimals => c = '.' && !decimals.isEmpty && decimals.all Text.isDecimal
  | _ => false

/-- The switches that a text of at least two characters, the first of them a dash, can
mean without being a spelling, with what it attaches to them. A text that begins with two
dashes is the beginning of a spelling, perhaps with an equals sign and a value; any other is
a short spelling with something behind it. -/
def candidates (text : List Char) : List (String × Switch) × Option (List Char) :=
  if text.tail.head? = some '-' then
    let (beginning, attached) := cut text
    (Switch.table.filter fun (spelling, _) => beginning.isPrefixOf spelling.toList, attached)
  else
    (Switch.table.filter fun (spelling, _) => spelling.toList = text.take 2,
      some (text.drop 2))

def isShort (spelling : String) : Bool :=
  spelling.toList.tail.head? ≠ some '-'

/-- The piece that an argument other than `--` is. -/
def ofText (text : String) : Except UsageError Piece :=
  let chars := text.toList
  if chars.head? ≠ some '-' || chars.length = 1 then .ok (word text)
  else
    match Switch.ofSpelling? text, (cut chars).2, Switch.ofSpelling? (String.ofList (cut chars).1) with
    | some s, _, _ => .ok (switch s (isShort text) none)
    | none, some value, some s => .ok (switch s (isShort text) (some value))
    | none, _, _ =>
      match candidates chars with
      | ([], _) =>
        if isNegativeNumber chars || ' ' ∈ chars then .ok (word text) else .ok (unknown text)
      | ([(spelling, s)], attached) => .ok (switch s (isShort spelling) attached)
      | (several, _) => .error (.ambiguous text (several.map (·.1)))

/-- The pieces that arguments are. -/
def ofTexts : List String → Except UsageError (List Piece)
  | [] => .ok []
  | text :: rest =>
    if text = "--" then .ok (separator :: rest.map word)
    else do
      let piece ← ofText text
      let pieces ← ofTexts rest
      return piece :: pieces

end Piece

/-! ## Reading -/

/-- What the arguments say. A switch that may be repeated has an entry for each time that it
is given, `none` where it was given without a value. -/
structure Arguments where
  protos : List String
  includes : List (Option String)
  descriptorSet : Option String
  targets : Option (List (Option String))
  allowed : List (Option String)
  verbose : Bool
deriving DecidableEq

/-- Why reading ends early. -/
inductive Interruption
  /-- The arguments ask for help. -/
  | help
  | usage (error : UsageError)
deriving DecidableEq

/-- How far the run of words that names the source files has come. -/
inductive WordRun
  | awaited | open | closed
deriving DecidableEq

/-- What has been read so far. -/
structure Progress where
  arguments : Arguments
  words : WordRun
  /-- The switch whose value comes next, and whether help is given after that. -/
  pending : Option (Switch × Bool)
  leftover : List String

namespace Progress

def start : Progress :=
  ⟨⟨[], [], none, none, [], false⟩, .awaited, none, []⟩

/-- Ends the run of words, if it has begun. -/
def endRun (p : Progress) : Progress :=
  if p.words = .open then { p with words := .closed } else p

def leaveOver (p : Progress) (text : String) : Progress :=
  { p with leftover := p.leftover ++ [text] }

def addWord (p : Progress) (text : String) : Progress :=
  if p.words = .closed then p.leaveOver text
  else { p with
    words := .open
    arguments := { p.arguments with protos := p.arguments.protos ++ [text] } }

def addSeparator (p : Progress) : Progress :=
  if p.words = .closed then p.leaveOver "--" else { p with words := .open }

/-- Gives its value, if there is one, to a switch that takes a value. -/
def assign (p : Progress) (s : Switch) (value : Option String) : Progress :=
  let a := p.arguments
  let arguments :=
    match s with
    | .searchPath => { a with includes := a.includes ++ [value] }
    | .descriptorSet => { a with descriptorSet := value }
    | .target => { a with targets := some (a.targets.getD [] ++ [value]) }
    | .allowRepeated => { a with allowed := a.allowed ++ [value] }
    | .help | .verbose => a
  { p with arguments, pending := none }

/-- The value that is written behind a switch; two dashes alone are none. -/
def attachedValue (text : List Char) : Option String :=
  if text = ['-', '-'] then none else some (String.ofList text)

/-- What follows from a short `-h` with a text behind it. The text stands for further short
switches, each with its value or with more switches behind it, and help is given once they
have all been made out. -/
def helpWith (p : Progress) : List Char → Except Interruption Progress
  | ['h'] => .error .help
  | ['I'] => .ok { p with pending := some (.searchPath, true) }
  | 'h' :: rest => helpWith p rest
  | 'I' :: _ => .error .help
  | text => .error (.usage (.needlessValue .help (String.ofList text)))

/-- Reads a switch. -/
def take (p : Progress) (s : Switch) (short : Bool) :
    Option (List Char) → Except Interruption Progress
  | none =>
    match s with
    | .help => .error .help
    | .verbose => .ok { p with arguments := { p.arguments with verbose := true } }
    | _ => .ok { p with pending := some (s, false) }
  | some text =>
    if s.takesValue then .ok (p.assign s (attachedValue text))
    else if s = .help && short then p.helpWith text
    else .error (.usage (.needlessValue s (String.ofList text)))

/-- Reads a piece. A switch that still waits for its value leaves room for nothing else. -/
def read (p : Progress) (piece : Piece) : Except Interruption Progress :=
  match p.pending, piece with
  | some (s, thenHelp), .word value => if thenHelp then .error .help else .ok (p.assign s (some value))
  | some (s, _), _ => .error (.usage (.missingValue s))
  | none, .word text => .ok (p.addWord text)
  | none, .separator => .ok p.addSeparator
  | none, .unknown text => .ok (p.endRun.leaveOver text)
  | none, .switch s short attached => p.endRun.take s short attached

/-- The arguments, once all pieces have been read. -/
def finish (p : Progress) : Except Interruption Arguments :=
  match p.pending, p.leftover with
  | some (s, _), _ => .error (.usage (.missingValue s))
  | none, [] => .ok p.arguments
  | none, texts => .error (.usage (.unrecognized texts))

end Progress

/-- The arguments that texts give. -/
def Arguments.ofTexts (texts : List String) : Except Interruption Arguments := do
  let pieces ← (Piece.ofTexts texts).mapError .usage
  let p ← pieces.foldlM Progress.read Progress.start
  p.finish

end HttpTranscoding.CommandLine
