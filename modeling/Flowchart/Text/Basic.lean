import Flowchart.Text.Class

/-!
# Operations on text

Text is a list of characters; offsets into it count UTF-8 bytes.  The
operations are the few that every reader here needs: the byte length, trimming,
cutting at the first occurrence of a pattern, and the two forms of a line
break.
-/

namespace Flowchart.Text

/-- The number of bytes of the UTF-8 encoding. -/
def byteLength : List Char → Nat
  | [] => 0
  | c :: text => c.utf8Size + byteLength text

@[simp] theorem byteLength_nil : byteLength [] = 0 :=
  rfl

@[simp] theorem byteLength_cons (c : Char) (text : List Char) :
    byteLength (c :: text) = c.utf8Size + byteLength text :=
  rfl

@[simp] theorem byteLength_append (first second : List Char) :
    byteLength (first ++ second) = byteLength first + byteLength second := by
  induction first with
  | nil => simp
  | cons c first ih => simp [ih, Nat.add_assoc]

/-- Drops the characters of the class from the end. -/
def dropWhileEnd (inClass : Char → Bool) (text : List Char) : List Char :=
  (text.reverse.dropWhile inClass).reverse

def trimStart (text : List Char) : List Char :=
  text.dropWhile isWhiteSpace

def trimEnd (text : List Char) : List Char :=
  dropWhileEnd isWhiteSpace text

/-- The text without white space at either end. -/
def trim (text : List Char) : List Char :=
  trimEnd (trimStart text)

/-- What follows the pattern, if the text starts with it. -/
def after? (pattern text : List Char) : Option (List Char) :=
  pattern.isPrefixOf? text

/-- Cuts the text around the first occurrence of the pattern: what stands
before it, and what follows it. -/
def cut? (pattern : List Char) : List Char → Option (List Char × List Char)
  | [] => (after? pattern []).map fun rest => ([], rest)
  | c :: text =>
    match after? pattern (c :: text) with
    | some rest => some ([], rest)
    | none => (cut? pattern text).map fun (before, rest) => (c :: before, rest)

/-- Cuts the text around the last occurrence of the character. -/
def cutLast? (mark : Char) (text : List Char) :
    Option (List Char × List Char) :=
  match text.reverse.span (· != mark) with
  | (_, []) => none
  | (last, _ :: before) => some (before.reverse, last.reverse)

/-- The text without its last character, if that is the mark. -/
def beforeFinal? (mark : Char) (text : List Char) : Option (List Char) :=
  match text.reverse with
  | [] => none
  | c :: before => if c = mark then some before.reverse else none

/-- What follows a line break, which is a line feed, alone or after a carriage
return. -/
def afterLineBreak? : List Char → Option (List Char)
  | '\n' :: rest => some rest
  | '\r' :: '\n' :: rest => some rest
  | _ => none

theorem length_lt_of_afterLineBreak? {text rest : List Char}
    (h : afterLineBreak? text = some rest) : rest.length < text.length := by
  unfold afterLineBreak? at h
  split at h
  · cases h
    exact Nat.lt_succ_self _
  · cases h
    exact Nat.lt_succ_of_lt (Nat.lt_succ_self _)
  · cases h

/-- The lines of the text, without their line feeds. -/
def lines (text : List Char) : List (List Char) :=
  text.splitOn '\n'

/-- The words of the text, separated by white space. -/
def words (text : List Char) : List (List Char) :=
  (text.splitOnP isWhiteSpace).filter (!·.isEmpty)

end Flowchart.Text
