import Flowchart.Span
import Flowchart.Text.Quote

/-!
# Splitting text into statements

A statement ends with its line, or at a semicolon outside quotes and brackets.
A line whose last quote is still open goes on up to the line that closes it.
Blank lines and comments, which start with `%%`, hold no statements.  Every
statement keeps the place where it stands in the text.
-/

namespace Flowchart

open Text

/-- The text of one statement and its place in the source. -/
structure Fragment where
  text : List Char
  span : Span
  deriving DecidableEq, Repr

namespace Fragment

/-- A line of a text: where it starts, what stands in it, and its line break. -/
structure Line where
  start : Nat
  content : List Char
  ending : List Char
  deriving DecidableEq, Repr

/-- Separates a line from the carriage returns and the line feed at its end. -/
def Line.ofRaw (start : Nat) (raw : List Char) : Line :=
  let content := dropWhileEnd isLineBreak raw
  ⟨start, content, raw.drop content.length⟩

/-- The lines with their line feeds.  The last one may have none; a text that
ends with a line feed has no line behind it. -/
def rawLines : List (List Char) → List (List Char)
  | [] => []
  | [last] => if last.isEmpty then [] else [last]
  | line :: below => (line ++ ['\n']) :: rawLines below

/-- Places consecutive lines, the first at the given offset. -/
def placeLines (offset : Nat) : List (List Char) → List Line
  | [] => []
  | raw :: below =>
    Line.ofRaw offset raw :: placeLines (offset + byteLength raw) below

/-- The lines of the text. -/
def physicalLines (text : List Char) : List Line :=
  placeLines 0 (rawLines (lines text))

/-- The line is blank or a comment. -/
def isSkipped (line : List Char) : Bool :=
  let trimmed := trim line
  trimmed.isEmpty || (after? ['%', '%'] trimmed).isSome

/-- Continues a line, given the quotes and the line break at its end, up to the
first line where the quotes are closed: the text in between and the lines
below. -/
def closingLine? (quote : Quote) (ending : List Char) :
    List Line → Option (List Char × List Line)
  | [] => none
  | line :: below =>
    let text := ending ++ line.content
    let next := quote.after text
    if next = .closed then some (text, below)
    else
      (closingLine? next line.ending below).map fun (more, rest) =>
        (text ++ more, rest)

theorem closingLine?_length {quote : Quote} {ending text : List Char}
    {lines rest : List Line}
    (h : closingLine? quote ending lines = some (text, rest)) :
    rest.length < lines.length := by
  induction lines generalizing quote ending text with
  | nil => simp [closingLine?] at h
  | cons line below ih =>
    simp only [closingLine?] at h
    split at h
    · simp at h
      simp [h.2]
    · obtain ⟨⟨more, tail⟩, hmore, heq⟩ := Option.map_eq_some_iff.1 h
      obtain ⟨rfl, rfl⟩ := Prod.mk.inj heq
      exact Nat.lt_succ_of_lt (ih hmore)

/-- Splits a text at the semicolons outside quotes and brackets.  A closing
bracket that closes nothing is disregarded. -/
def pieces (quote : Quote) (depth : Nat) : List Char → List (List Char)
  | [] => [[]]
  | c :: rest =>
    if quote = .closed ∧ c = ';' ∧ depth = 0 then
      [] :: pieces .closed 0 rest
    else
      let inner :=
        if quote ≠ .closed then depth
        else if c = '(' ∨ c = '[' ∨ c = '{' then depth + 1
        else if c = ')' ∨ c = ']' ∨ c = '}' then depth - 1
        else depth
      match pieces (quote.step c) inner rest with
      | [] => [[c]]
      | first :: others => (c :: first) :: others

/-- The statement in a piece of text at the given offset, unless the piece is
blank. -/
def ofPiece? (offset : Nat) (piece : List Char) : Option Fragment :=
  let text := trim piece
  if text.isEmpty then none
  else
    let start := offset + byteLength (piece.takeWhile isWhiteSpace)
    some ⟨text, Span.ofLength start (byteLength text)⟩

/-- The statements in consecutive pieces, the first at the given offset. -/
def ofPieces (offset : Nat) : List (List Char) → List Fragment
  | [] => []
  | piece :: others =>
    (ofPiece? offset piece).toList ++
      ofPieces (offset + byteLength piece + 1) others

/-- The statements of consecutive lines. -/
def ofLines (lines : List Line) : List Fragment :=
  match lines with
  | [] => []
  | line :: below =>
    if isSkipped line.content then ofLines below
    else
      let quote := Quote.after .closed line.content
      match h : if quote = .closed then none
          else closingLine? quote line.ending below with
      | none =>
        ofPieces line.start (pieces .closed 0 line.content) ++ ofLines below
      | some (more, rest) =>
        have : rest.length < below.length := by
          split at h
          · simp at h
          · exact closingLine?_length h
        ofPieces line.start (pieces .closed 0 (line.content ++ more)) ++
          ofLines rest
termination_by lines.length

/-- The statements of the text, in order. -/
def ofText (text : List Char) : List Fragment :=
  ofLines (physicalLines text)

end Fragment

end Flowchart
