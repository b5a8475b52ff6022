import Flowchart.Label
import Flowchart.Statement

/-!
# Connectors and links

The spellings of connectors, which may be longer than `Connector.token`, and
the two ways to label a link: between bars behind the connector, or inside the
connector itself, as in `-- text -->`.
-/

namespace Flowchart.Grammar

open Text

/-- Characters of an id.  Hyphens are allowed between them. -/
def isIdChar (c : Char) : Bool :=
  isAlphanumeric c || c == '_'

/-- Reads as many marks as there are, if they are at least the given number. -/
def run? (mark : Char) (least : Nat) (text : List Char) :
    Option (Nat × List Char) :=
  let count := (text.takeWhile (· == mark)).length
  if least ≤ count then some (count, text.drop count) else none

/-- The text cannot go on with an id. -/
def endsId : List Char → Bool
  | [] => true
  | c :: _ => !isIdChar c

/-- Reads the head of a solid edge.  The letters `o` and `x` are heads only
where no id starts with them. -/
def solidHead? : List Char → Option (Connector × List Char)
  | '>' :: rest => some (.arrow, rest)
  | 'o' :: rest => if endsId rest then some (.circle, rest) else none
  | 'x' :: rest => if endsId rest then some (.cross, rest) else none
  | _ => none

/-- Reads `-->`, `---`, `--o`, `--x` and their longer spellings. -/
def solid? (text : List Char) : Option (Connector × List Char) :=
  (run? '-' 2 text).bind fun (count, rest) =>
    match solidHead? rest with
    | some head => some head
    | none => if 3 ≤ count then some (.line, rest) else none

/-- Reads the head of a dotted edge. -/
def dottedHead : List Char → Connector × List Char
  | '>' :: rest => (.dottedArrow, rest)
  | rest => (.dottedLine, rest)

/-- Skips the dots of a dotted edge with the hyphens around them. -/
def afterDots? (text : List Char) : Option (List Char) :=
  (after? ['-'] text).bind fun rest =>
    (run? '.' 1 rest).bind fun (_, rest) => after? ['-'] rest

/-- Reads `-.->`, `-.-` and their longer spellings. -/
def dotted? (text : List Char) : Option (Connector × List Char) :=
  (afterDots? text).map dottedHead

/-- Reads `==>`, `===` and their longer spellings. -/
def thick? (text : List Char) : Option (Connector × List Char) :=
  (run? '=' 2 text).bind fun (count, rest) =>
    match after? ['>'] rest with
    | some rest => some (.thickArrow, rest)
    | none => if 3 ≤ count then some (.thickLine, rest) else none

/-- Reads `~~~` and its longer spellings. -/
def invisible? (text : List Char) : Option (Connector × List Char) :=
  (run? '~' 3 text).map fun (_, rest) => (.invisible, rest)

/-- What follows the body of a solid, thick or dotted edge. -/
def afterBody? (text : List Char) : Option (List Char) :=
  ((run? '-' 2 text).map Prod.snd).bind (after? ['>']) <|>
    ((run? '=' 2 text).map Prod.snd).bind (after? ['>']) <|>
    (afterDots? text).bind (after? ['>'])

/-- Reads `<-->`, `<==>`, `<-.->` and their longer spellings. -/
def bidirectional? (text : List Char) : Option (Connector × List Char) :=
  ((after? ['<'] text).bind afterBody?).map fun rest => (.bidirectional, rest)

/-- Reads a connector without a text inside. -/
def plainConnector? (text : List Char) : Option (Connector × List Char) :=
  bidirectional? text <|> dotted? text <|> solid? text <|> thick? text <|>
    invisible? text

/-- Cuts the text in front of the pattern.  Something must stand before it. -/
def before? (pattern text : List Char) : Option (List Char × List Char) :=
  (cut? pattern text).bind fun (before, rest) =>
    if before.isEmpty then none else some (before, pattern ++ rest)

/-- Reads a connector with a text inside: `-- text -->`, `-. text .->` or
`== text ==>`. -/
def textConnector? (text : List Char) :
    Option (Connector × List Char × List Char) :=
  (do
    let (inner, rest) ← before? ['-', '-'] (← after? ['-', '-'] text)
    let (connector, rest) ← solid? rest
    return (connector, inner, rest)) <|>
  (do
    let (inner, rest) ← before? ['.', '-'] (← after? ['-', '.'] text)
    let (connector, rest) := dottedHead (← after? ['.', '-'] rest)
    return (connector, inner, rest)) <|>
  (do
    let (inner, rest) ← before? ['=', '='] (← after? ['=', '='] text)
    let (connector, rest) ← thick? rest
    return (connector, inner, rest))

/-- Reads a text between bars. -/
def barText? (text : List Char) : Option (List Char × List Char) :=
  (after? ['|'] text).bind (cut? ['|'])

/-- The text between two quotes at the ends of the text. -/
def unquoted? (text : List Char) : Option (List Char) :=
  (after? ['"'] text).bind (beforeFinal? '"')

/-- The label of an edge as it is shown; quotes around it are optional, and an
empty label is none. -/
def edgeLabel? (raw : List Char) : Option String :=
  let trimmed := trim raw
  let label :=
    match unquoted? trimmed with
    | some inner => Label.normalize inner true
    | none => Label.normalize trimmed false
  if label.isEmpty then none else some (String.ofList label)

/-- Reads a connector and the text inside it, if there is one. -/
def connector? (text : List Char) :
    Option (Connector × Option (List Char) × List Char) :=
  match plainConnector? text with
  | some (connector, rest) => some (connector, none, rest)
  | none =>
    (textConnector? text).map fun (connector, inner, rest) =>
      (connector, some inner, rest)

/-- Reads a link.  A text between bars takes precedence over a text inside the
connector. -/
def link? (text : List Char) : Option (Link × List Char) :=
  (connector? text).map fun (connector, inner, rest) =>
    match barText? (rest.dropWhile isFiller) with
    | some (label, rest) => (⟨connector, edgeLabel? label⟩, rest)
    | none => (⟨connector, inner.bind edgeLabel?⟩, rest)

end Flowchart.Grammar
