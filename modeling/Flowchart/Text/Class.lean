import Flowchart.Text.Alphabetic
import Flowchart.Text.Numeric
import Flowchart.Text.Mark

/-!
# Character classes

The classes that the notation distinguishes: white space, blanks, alphanumeric
characters, word characters and decimal digits.  All but the blanks follow the
Unicode properties of the same name: identifiers know the letters of Unicode 17,
words and digits in running text those of Unicode 16.  ASCII characters are
decided without a table, and `isAlphanumeric_ascii`, `isWordChar_ascii` and
`isDigit_ascii` say how.
-/

namespace Flowchart.Text

/-- The code point lies in one of the ranges. -/
def inRanges (ranges : List (Nat × Nat)) (code : Nat) : Bool :=
  ranges.any fun range => range.1 ≤ code && code ≤ range.2

/-- The Unicode property `White_Space`. -/
def isWhiteSpace (c : Char) : Bool :=
  inRanges
    [(0x9, 0xD), (0x20, 0x20), (0x85, 0x85), (0xA0, 0xA0), (0x1680, 0x1680),
     (0x2000, 0x200A), (0x2028, 0x2029), (0x202F, 0x202F), (0x205F, 0x205F),
     (0x3000, 0x3000)] c.toNat

/-- Blanks separate words within one line. -/
def isBlank (c : Char) : Bool :=
  c == ' ' || c == '\t'

/-- Blanks and line breaks, the filler of the statement grammar. -/
def isFiller (c : Char) : Bool :=
  isBlank c || c == '\r' || c == '\n'

def isLineBreak (c : Char) : Bool :=
  c == '\r' || c == '\n'

/-- Letters and numbers of every script. -/
def isAlphanumeric (c : Char) : Bool :=
  if c.toNat < 0x80 then c.isAlphanum
  else inRanges alphabeticRanges c.toNat || inRanges numberRanges c.toNat

/-- Decimal digits of every script. -/
def isDigit (c : Char) : Bool :=
  if c.toNat < 0x80 then c.isDigit else inRanges digitRanges c.toNat

/-- Letters of every script, up to Unicode 16. -/
def isEarlierAlphabetic (c : Char) : Bool :=
  inRanges alphabeticRanges c.toNat && !inRanges recentRanges c.toNat

/-- Characters of words in running text: letters, marks, decimal digits,
connecting punctuation such as `_`, and the two joiners. -/
def isWordChar (c : Char) : Bool :=
  if c.toNat < 0x80 then c.isAlphanum || c == '_'
  else
    isEarlierAlphabetic c || inRanges markRanges c.toNat ||
      inRanges digitRanges c.toNat ||
      inRanges
        [(0x200C, 0x200D), (0x203F, 0x2040), (0x2054, 0x2054),
         (0xFE33, 0xFE34), (0xFE4D, 0xFE4F), (0xFF3F, 0xFF3F)] c.toNat

theorem isAlphanumeric_ascii {c : Char} (h : c.toNat < 0x80) :
    isAlphanumeric c = c.isAlphanum := by
  simp [isAlphanumeric, h]

theorem isDigit_ascii {c : Char} (h : c.toNat < 0x80) :
    isDigit c = c.isDigit := by
  simp [isDigit, h]

theorem isWordChar_ascii {c : Char} (h : c.toNat < 0x80) :
    isWordChar c = (c.isAlphanum || c == '_') := by
  simp [isWordChar, h]

/-- The character cannot belong to the word before it, and neither can the
end of the text. -/
def endsWord : List Char → Bool
  | [] => true
  | c :: _ => !isWordChar c

end Flowchart.Text
