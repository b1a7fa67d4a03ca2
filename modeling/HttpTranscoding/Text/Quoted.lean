import HttpTranscoding.Text.Printable
/-!
# Quoted text

How a text is shown between quotation marks inside a message. Single quotes are
used, unless the text itself holds a single quote and no double quote. The mark
in use and the backslash are escaped by a backslash, line feed, carriage return
and tab by their letters, and every other character that is not printable by
`\x`, `\u` or `\U` and two, four or eight hexadecimal digits, as few as will do.
-/

namespace HttpTranscoding.Text

/-- The mark that `text` is quoted with. -/
def quotationMark (text : List Char) : Char :=
  if '\'' ∈ text ∧ '"' ∉ text then '"' else '\''

/-- The last `width` hexadecimal digits of a number. -/
def hexDigits : Nat → Nat → List Char
  | 0, _ => []
  | width + 1, n => hexDigits width (n / 16) ++ [Nat.digitChar (n % 16)]

/-- The escape of a code point by its number. -/
def escapeNumber (n : Nat) : List Char :=
  if n < 0x100 then '\\' :: 'x' :: hexDigits 2 n
  else if n < 0x10000 then '\\' :: 'u' :: hexDigits 4 n
  else '\\' :: 'U' :: hexDigits 8 n

def escape (mark c : Char) : List Char :=
  if c = mark ∨ c = '\\' then ['\\', c]
  else if c = '\n' then ['\\', 'n']
  else if c = '\r' then ['\\', 'r']
  else if c = '\t' then ['\\', 't']
  else if isPrintable c then [c]
  else escapeNumber c.toNat

/-- The text between quotation marks, on one line of printable characters. -/
def quoted (text : String) : String :=
  let mark := quotationMark text.toList
  String.ofList (mark :: text.toList.flatMap (escape mark) ++ [mark])

end HttpTranscoding.Text
