import Flowchart.Source.Keyword
import Flowchart.Source.Sanitize
import Flowchart.Statement.Node

/-!
# The grammar of statements

`statement?` reads one statement.  The forms are tried in a fixed order, and a
form counts only if it takes up the whole text; styling and interaction
statements are known by their first word alone.
-/

namespace Flowchart.Grammar

open Text

/-- Nothing but filler is left. -/
def isRest (text : List Char) : Bool :=
  text.all isFiller

/-- The result of a reader, if it takes up the whole text. -/
def whole? {α : Type} (result : Option (α × List Char)) : Option α :=
  result.bind fun (value, rest) => if isRest rest then some value else none

/-- Reads a link and the nodes behind it. -/
def nextLink? (stop : Nat) (text : List Char) :
    Option ((Link × List Mention) × List Char) :=
  (link? (text.dropWhile isFiller)).bind fun (link, rest) =>
    (mentions? stop (rest.dropWhile isFiller)).map fun (mentions, rest) =>
      ((link, mentions), rest)

/-- Splits off all further links of a chain. -/
def moreLinks (stop : Nat) (text : List Char) :
    List (Link × List Mention) × List Char :=
  match nextLink? stop text with
  | none => ([], text)
  | some (link, rest) =>
    if rest.length < text.length then
      let (others, after) := moreLinks stop rest
      (link :: others, after)
    else ([link], rest)
termination_by text.length

/-- Reads a chain of at least one link. -/
def chain? (stop : Nat) (text : List Char) : Option (Chain × List Char) :=
  (mentions? stop text).bind fun (head, rest) =>
    let (links, after) := moreLinks stop rest
    if links.isEmpty then none else some (⟨head, links⟩, after)

/-- The text without the annotation between bars at its end. -/
def withoutAnnotation (text : List Char) : List Char :=
  let trimmed := trim text
  match Sanitize.annotation? trimmed with
  | some (before, _) => before
  | none => trimmed

/-- Reads a title in quotes. -/
def titleHeader? (text : List Char) : Option GroupHeader :=
  (whole? (quotedString? text)).map fun inside =>
    ⟨none, some (String.ofList (Label.normalize inside true))⟩

/-- Reads an id with a title in brackets. -/
def titledHeader? (text : List Char) : Option GroupHeader :=
  (id? text).bind fun (id, rest) =>
    (after? ['['] (rest.dropWhile isFiller)).bind fun rest =>
      (whole? (label? [']'] rest)).map fun title =>
        ⟨some (String.ofList id), some (String.ofList title)⟩

/-- Reads an id alone. -/
def plainHeader? (text : List Char) : Option GroupHeader :=
  (whole? (id? text)).map fun id => ⟨some (String.ofList id), none⟩

/-- Takes the text as a title, from which the id is derived. -/
def freeHeader (text : List Char) : GroupHeader :=
  let title := Label.normalize text false
  ⟨some (String.ofList (Label.slug title)), some (String.ofList title)⟩

/-- Reads what stands behind `subgraph`: an id, a title, both or nothing. -/
def groupHeader (text : List Char) : GroupHeader :=
  let text := withoutAnnotation text
  if text.isEmpty then ⟨none, none⟩
  else
    (titleHeader? text <|> titledHeader? text <|> plainHeader? text).getD
      (freeHeader text)

/-- Reads the opening line of a group. -/
def openGroup? (text : List Char) : Option GroupHeader :=
  match after? "subgraph".toList text with
  | none => none
  | some [] => some (groupHeader [])
  | some (c :: rest) => if isFiller c then some (groupHeader rest) else none

def closeGroup? (text : List Char) : Option Unit :=
  whole? ((after? "end".toList text).map fun rest => ((), rest))

/-- Skips blanks, of which there is at least one. -/
def afterBlanks? (text : List Char) : Option (List Char) :=
  match text with
  | c :: rest => if isBlank c then some (rest.dropWhile isBlank) else none
  | [] => none

def direction? (text : List Char) : Option Direction :=
  ((after? "direction".toList text).bind afterBlanks?).bind fun rest =>
    match rest with
    | first :: second :: rest =>
      if isRest rest then Direction.ofKeyword? [first, second] else none
    | _ => none

/-- The keywords of statements that have no effect.  Of two that start alike,
the longer one comes first. -/
def unsupportedKeywords : List String :=
  ["classDef", "class", "style", "click", "linkStyle"]

/-- Reads the keyword of a statement that has no effect. -/
def unsupported? (text : List Char) : Option String :=
  (unsupportedKeywords.find? fun keyword =>
    (after? keyword.toList text).isSome).filter fun keyword =>
      ((after? keyword.toList text).bind afterBlanks?).isSome

/-- Reads the text of one statement, which stands at the given offset of the
source. -/
def statement? (text : List Char) (offset : Nat) : Option Statement :=
  let stop := offset + byteLength text
  (openGroup? text).map .openGroup <|>
    (closeGroup? text).map (fun _ => .closeGroup) <|>
    (direction? text).map .direction <|>
    (whole? (chain? stop text)).map .chain <|>
    (whole? (mentions? stop text)).map .nodes <|>
    (unsupported? text).map .unsupported

/-- The direction that the opening line of a diagram asks for. -/
def headerDirection? (header : List Char) : Option Direction :=
  if Keyword.opens header then
    match words header with
    | _ :: second :: _ => Direction.ofKeyword? second
    | _ => none
  else none

end Flowchart.Grammar
