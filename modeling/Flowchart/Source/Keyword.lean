import Flowchart.Span
import Flowchart.Text.Basic

/-!
# Diagram keywords

A diagram opens with a keyword such as `graph` at the start of a line, possibly
indented.  A word that only looks like one is told apart by what follows it: a
keyword ends there as a word, and the rest of the line does not go on like a
statement about a node of that name.  Whether a line opens a diagram depends on
that line alone.
-/

namespace Flowchart.Keyword

open Text

/-- The words that open a diagram.  None of them starts another one. -/
def all : List (List Char) :=
  ["graph", "flowchart", "sequenceDiagram", "stateDiagram", "classDiagram",
   "gantt", "journey", "erDiagram", "gitGraph", "pie", "timeline",
   "infoDiagram"].map String.toList

/-- What follows a version mark such as `-v2`; the text itself if it starts with
none. -/
def afterVersion (text : List Char) : List Char :=
  match text with
  | '-' :: 'v' :: d :: rest =>
    let after := rest.dropWhile isDigit
    if isDigit d && endsWord after then after else text
  | _ => text

/-- The characters by which a statement about a node goes on. -/
def continuations : List Char :=
  ['-', '=', '.', '~', '<', '&', '[', '(', '{', '>', ':']

/-- The text goes on with a statement, after blanks. -/
def continuesStatement (text : List Char) : Bool :=
  match text.dropWhile isBlank with
  | [] => false
  | c :: _ => continuations.contains c

/-- The keyword that the text starts with, and what follows it. -/
def opening? (text : List Char) : Option (List Char × List Char) :=
  all.findSome? fun keyword =>
    (after? keyword text).bind fun rest =>
      if endsWord rest && !continuesStatement (afterVersion rest) then
        some (keyword, rest)
      else none

/-- A place where a keyword opens a diagram: the text before it, the keyword,
and the text behind it. -/
structure Occurrence where
  before : List Char
  keyword : List Char
  after : List Char
  deriving DecidableEq, Repr

/-- The text from the keyword on. -/
def Occurrence.onwards (occurrence : Occurrence) : List Char :=
  occurrence.keyword ++ occurrence.after

/-- Where the keyword stands, in bytes. -/
def Occurrence.position (occurrence : Occurrence) : Nat :=
  byteLength occurrence.before

/-- The bytes of the keyword. -/
def Occurrence.span (occurrence : Occurrence) : Span :=
  Span.ofLength occurrence.position (byteLength occurrence.keyword)

/-- The lines as they follow another line. -/
def following (lines : List (List Char)) : List Char :=
  lines.flatMap ('\n' :: ·)

/-- The occurrence in the line, which has the given text before it and the
given lines behind it. -/
def inLine? (before line : List Char) (below : List (List Char)) :
    Option Occurrence :=
  (opening? (line.dropWhile isBlank)).map fun (keyword, rest) =>
    ⟨before ++ line.takeWhile isBlank, keyword, rest ++ following below⟩

/-- The occurrences in the lines, which have the given text before them. -/
def inLines (before : List Char) : List (List Char) → List Occurrence
  | [] => []
  | line :: below =>
    (inLine? before line below).toList ++
      inLines (before ++ line ++ ['\n']) below

/-- Every place of the text where a diagram opens. -/
def occurrences (text : List Char) : List Occurrence :=
  inLines [] (lines text)

/-- The offsets of the keywords, in bytes. -/
def positions (text : List Char) : List Nat :=
  (occurrences text).map Occurrence.position

def first? (text : List Char) : Option Occurrence :=
  (occurrences text).head?

/-- A diagram opens at the start of the text, white space aside. -/
def opens (text : List Char) : Bool :=
  match first? (trimStart text) with
  | some occurrence => occurrence.before.isEmpty
  | none => false

end Flowchart.Keyword
