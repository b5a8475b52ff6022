import Flowchart.Statement.Connector

/-!
# Nodes in statements

A node is named by its id.  It may be followed by a label between delimiters,
which also tell its shape, and by the name of a style class, which has no
effect.
-/

namespace Flowchart.Grammar

open Text

/-- A pair of delimiters around a label, and the shape that it stands for. -/
structure Delimiter where
  opening : List Char
  closing : List Char
  shape : Shape
  deriving DecidableEq, Repr

/-- The delimiters.  One that starts another one comes after it, so that `((x))`
is not read as a label `(x)` in parentheses. -/
def Delimiter.all : List Delimiter :=
  [⟨['(', '(', '('], [')', ')', ')'], .circle⟩,
   ⟨['(', '('], [')', ')'], .circle⟩,
   ⟨['(', '['], [']', ')'], .stadium⟩,
   ⟨['[', '['], [']', ']'], .rectangle⟩,
   ⟨['[', '('], [')', ']'], .rectangle⟩,
   ⟨['{', '{'], ['}', '}'], .diamond⟩,
   ⟨['['], [']'], .rectangle⟩,
   ⟨['>'], [']'], .rectangle⟩,
   ⟨['{'], ['}'], .diamond⟩,
   ⟨['('], [')'], .rounded⟩]

/-- The delimiters of a shape. -/
def Delimiter.ofShape (shape : Shape) : List Delimiter :=
  all.filter (·.shape == shape)

/-- The shape that two delimiters stand for. -/
def shapeBetween? (opening closing : List Char) : Option Shape :=
  (Delimiter.all.find? fun delimiter =>
    delimiter.opening == opening && delimiter.closing == closing).map
      Delimiter.shape

/-- Splits off the rest of an id: id characters, and hyphens in front of
them. -/
def idTail : List Char → List Char × List Char
  | [] => ([], [])
  | c :: rest =>
    if isIdChar c || (c == '-' && !endsId rest) then
      let (tail, after) := idTail rest
      (c :: tail, after)
    else ([], c :: rest)

/-- Reads an id.  A hyphen belongs to it only in front of an id character, so
that `A-->B` starts with the id `A`. -/
def id? (text : List Char) : Option (List Char × List Char) :=
  if endsId text then none else some (idTail text)

/-- Splits off the inside of a quoted string, up to the quote that closes
it. -/
def quotedInside : List Char → List Char × List Char
  | '\\' :: c :: rest =>
    let (inside, after) := quotedInside rest
    ('\\' :: c :: inside, after)
  | ['\\'] => ([], ['\\'])
  | '"' :: rest => ([], '"' :: rest)
  | c :: rest =>
    let (inside, after) := quotedInside rest
    (c :: inside, after)
  | [] => ([], [])

/-- Reads a quoted string: its inside, and what follows the closing quote. -/
def quotedString? (text : List Char) : Option (List Char × List Char) :=
  (after? ['"'] text).bind fun rest =>
    let (inside, after) := quotedInside rest
    (after? ['"'] after).map fun rest => (inside, rest)

/-- Cuts the text at the first closing delimiter outside brackets: what stands
before it and what follows it. -/
def balanced? (closing : List Char) : Nat → List Char →
    Option (List Char × List Char)
  | _, [] => none
  | depth, c :: rest =>
    match if depth = 0 then after? closing (c :: rest) else none with
    | some after => some ([], after)
    | none =>
      let inner :=
        if c = '(' ∨ c = '[' ∨ c = '{' then depth + 1
        else if c = ')' ∨ c = ']' ∨ c = '}' then depth - 1
        else depth
      (balanced? closing inner rest).map fun (body, after) => (c :: body, after)

/-- Reads a quoted label and the closing delimiter. -/
def quotedLabel? (closing text : List Char) :
    Option (List Char × List Char) :=
  (quotedString? (text.dropWhile isFiller)).bind fun (inside, rest) =>
    (after? closing (rest.dropWhile isFiller)).map fun rest => (inside, rest)

/-- Reads a label and the closing delimiter.  The label is quoted, or goes on up
to the first closing delimiter outside brackets. -/
def label? (closing text : List Char) : Option (List Char × List Char) :=
  match quotedLabel? closing text with
  | some (inside, rest) => some (Label.normalize inside true, rest)
  | none =>
    (balanced? closing 0 text).map fun (body, rest) =>
      (Label.normalize body false, rest)

/-- Reads a label between the given delimiters. -/
def Delimiter.read? (delimiter : Delimiter) (text : List Char) :
    Option (Definition × List Char) :=
  ((after? delimiter.opening text).bind (label? delimiter.closing)).map
    fun (label, rest) => (⟨delimiter.shape, String.ofList label⟩, rest)

/-- Reads the shape and the label of a node. -/
def definition? (text : List Char) : Option (Definition × List Char) :=
  Delimiter.all.findSome? (·.read? text)

def isClassChar (c : Char) : Bool :=
  isIdChar c || c == '-'

/-- Skips the name of a style class behind `:::`. -/
def skipClass (text : List Char) : List Char :=
  match after? [':', ':', ':'] text with
  | some (c :: rest) =>
    if isClassChar c then rest.dropWhile isClassChar else text
  | _ => text

/-- Reads a node of a statement that ends at the given byte of the source. -/
def mention? (stop : Nat) (text : List Char) : Option (Mention × List Char) :=
  (id? text).map fun (id, rest) =>
    let (definition, rest) :=
      match definition? rest with
      | some (definition, rest) => (some definition, rest)
      | none => (none, rest)
    let rest := skipClass rest
    let span := Span.ofBounds (stop - byteLength text) (stop - byteLength rest)
    (⟨String.ofList id, definition, span⟩, rest)

/-- Reads the `&` between two nodes, and the node behind it. -/
def nextMention? (stop : Nat) (text : List Char) :
    Option (Mention × List Char) :=
  (after? ['&'] (text.dropWhile isFiller)).bind fun rest =>
    mention? stop (rest.dropWhile isFiller)

/-- Splits off all further nodes of a list. -/
def moreMentions (stop : Nat) (text : List Char) :
    List Mention × List Char :=
  match nextMention? stop text with
  | none => ([], text)
  | some (mention, rest) =>
    if rest.length < text.length then
      let (others, after) := moreMentions stop rest
      (mention :: others, after)
    else ([mention], rest)
termination_by text.length

/-- Reads one or more nodes, separated by `&`. -/
def mentions? (stop : Nat) (text : List Char) :
    Option (List Mention × List Char) :=
  (mention? stop text).map fun (mention, rest) =>
    let (others, after) := moreMentions stop rest
    (mention :: others, after)

end Flowchart.Grammar
