/-!
# Blank characters

Field paths, environment values and path templates may pad a name with blanks.
A character is blank if Unicode gives it the property `White_Space` or if it is
one of the four information separators U+001C to U+001F; `isBlank_of_isWhitespace`
says that the blanks of ASCII text are among them. `strip` takes the blanks off
both ends of a text and keeps those inside.
-/

namespace HttpTranscoding.Text

/-- The first and the last code point of each run of blank characters, in ascending order. -/
def blankRanges : List (Nat × Nat) :=
  [(0x09, 0x0D), (0x1C, 0x20), (0x85, 0x85), (0xA0, 0xA0), (0x1680, 0x1680), (0x2000, 0x200A),
    (0x2028, 0x2029), (0x202F, 0x202F), (0x205F, 0x205F), (0x3000, 0x3000)]

def isBlank (c : Char) : Bool :=
  blankRanges.any fun (first, last) => first ≤ c.toNat && c.toNat ≤ last

theorem isBlank_of_isWhitespace {c : Char} (h : c.isWhitespace) : isBlank c := by
  simp only [Char.isWhitespace, Bool.or_eq_true, decide_eq_true_eq] at h
  rcases h with ((rfl | rfl) | rfl) | rfl <;> decide

/-- The text without the blanks at its two ends. -/
def strip (text : List Char) : List Char :=
  ((text.dropWhile isBlank).reverse.dropWhile isBlank).reverse

/-- `strip` on strings. -/
def stripped (text : String) : String :=
  String.ofList (strip text.toList)

end HttpTranscoding.Text
