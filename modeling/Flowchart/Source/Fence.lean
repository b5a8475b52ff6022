import Flowchart.Source.Keyword

/-!
# Fenced blocks

Diagram text is often handed over inside prose, between two fences of
backquotes.  `extract` looks for it in four ways, the surest first: a block
that is tagged as a diagram, a block of any tag that opens a diagram, the first
diagram keyword up to the next fence, and the whole text.
-/

namespace Flowchart.Fence

open Text

/-- The mark around a block. -/
def mark : List Char :=
  "```".toList

/-- The opening mark with the tag of a diagram. -/
def taggedMark : List Char :=
  "```mermaid".toList

/-- Skips the rest of an opening line, if it is blank. -/
def afterBlankRest? (text : List Char) : Option (List Char) :=
  afterLineBreak? (text.dropWhile isBlank)

/-- Reads a block tagged as a diagram: its body and what follows it. -/
def taggedBlock? (text : List Char) : Option (List Char × List Char) :=
  ((after? taggedMark text).bind afterBlankRest?).bind (cut? mark)

/-- Characters of a tag. -/
def isTagChar (c : Char) : Bool :=
  isWordChar c || c == '-'

/-- Reads a block with any tag: its body and what follows it. -/
def block? (text : List Char) : Option (List Char × List Char) :=
  ((after? mark text).bind fun rest =>
    afterBlankRest? (rest.dropWhile isTagChar)).bind (cut? mark)

/-- The body of the first block tagged as a diagram. -/
def taggedBody? : List Char → Option (List Char)
  | [] => none
  | c :: text =>
    match taggedBlock? (c :: text) with
    | some (body, _) => some body
    | none => taggedBody? text

/-- The bodies of all blocks, one after the other. -/
def bodies (text : List Char) : List (List Char) :=
  match text with
  | [] => []
  | c :: below =>
    match block? (c :: below) with
    | some (body, rest) =>
      if rest.length < (c :: below).length then body :: bodies rest else [body]
    | none => bodies below
termination_by text.length
decreasing_by
  · assumption
  · exact Nat.lt_succ_self _

/-- The text up to the next fence. -/
def upToMark (text : List Char) : List Char :=
  match cut? mark text with
  | some (before, _) => before
  | none => text

/-- The diagram text that the content holds, trimmed. -/
def extract (content : List Char) : List Char :=
  match taggedBody? content with
  | some body => trim body
  | none =>
    match (bodies content).find? Keyword.opens with
    | some body => trim body
    | none =>
      match Keyword.first? content with
      | some occurrence => trim (upToMark occurrence.onwards)
      | none => trim content

end Flowchart.Fence
