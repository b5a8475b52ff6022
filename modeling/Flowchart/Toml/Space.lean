import Flowchart.Text.Basic

/-!
# Blanks, comments and line breaks in TOML

A comment runs from a number sign to the end of its line.  Control characters
other than the tab stand nowhere, and a carriage return only in front of a line
feed.
-/

namespace Flowchart.Toml

open Text

/-- A character that may stand in comments and strings as it is. -/
def isPlain (c : Char) : Bool :=
  c == '\t' || (32 ≤ c.toNat && c.toNat != 127)

/-- The text behind the blanks at its start. -/
def skipBlanks (text : List Char) : List Char :=
  text.dropWhile Text.isBlank

/-- The text behind the comment at its start, if there is one. -/
def skipComment : List Char → List Char
  | '#' :: comment => comment.dropWhile isPlain
  | text => text

theorem length_skipBlanks_le (text : List Char) :
    (skipBlanks text).length ≤ text.length :=
  (List.dropWhile_sublist _).length_le

theorem length_skipComment_le (text : List Char) :
    (skipComment text).length ≤ text.length := by
  unfold skipComment
  split
  · exact Nat.le_succ_of_le (List.dropWhile_sublist _).length_le
  · exact Nat.le_refl _

/-- Skips blanks, comments and line breaks. -/
def skipSpace (text : List Char) : List Char :=
  match _h : afterLineBreak? (skipComment (skipBlanks text)) with
  | some rest => skipSpace rest
  | none => skipComment (skipBlanks text)
termination_by text.length
decreasing_by
  exact Nat.lt_of_lt_of_le (length_lt_of_afterLineBreak? _h)
    (Nat.le_trans (length_skipComment_le _) (length_skipBlanks_le text))

/-- Skips blanks and line breaks, as they may follow a line that goes on in
the next one. -/
def skipBreaks (text : List Char) : List Char :=
  match _h : afterLineBreak? (skipBlanks text) with
  | some rest => skipBreaks rest
  | none => skipBlanks text
termination_by text.length
decreasing_by
  exact Nat.lt_of_lt_of_le (length_lt_of_afterLineBreak? _h)
    (length_skipBlanks_le text)

/-- What follows the end of a line, which may carry a comment. -/
def afterLine? (text : List Char) : Option (List Char) :=
  match skipComment (skipBlanks text) with
  | [] => some []
  | rest => afterLineBreak? rest

end Flowchart.Toml
