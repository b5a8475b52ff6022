/-!
# Written JSON

Values whose objects keep the order of their fields, and the text in which they
are written: every element and every field has a line of its own, two blanks
deeper than the bracket around it, and empty lists and objects have no lines.
-/

namespace Flowchart

inductive Json where
  | null
  | truth (value : Bool)
  /-- A number, by its numeral. -/
  | number (numeral : String)
  | text (value : String)
  | list (items : List Json)
  | object (fields : List (String × Json))

namespace Json

/-- The hexadecimal digit of a number below 16. -/
def hexDigit (n : Nat) : Char :=
  if n < 10 then Char.ofNat (n + 48) else Char.ofNat (n + 87)

/-- A character inside a quoted text. -/
def escapeChar (c : Char) : List Char :=
  if c = '"' then ['\\', '"']
  else if c = '\\' then ['\\', '\\']
  else if c = '\n' then ['\\', 'n']
  else if c = '\r' then ['\\', 'r']
  else if c = '\t' then ['\\', 't']
  else if c = Char.ofNat 8 then ['\\', 'b']
  else if c = Char.ofNat 12 then ['\\', 'f']
  else if c.toNat < 32 then
    ['\\', 'u', '0', '0', hexDigit (c.toNat / 16), hexDigit (c.toNat % 16)]
  else [c]

def quote (text : String) : List Char :=
  '"' :: text.toList.flatMap escapeChar ++ ['"']

/-- A line break, and the blanks in front of a line of the given depth. -/
def newLine (depth : Nat) : List Char :=
  '\n' :: List.replicate (2 * depth) ' '

/-- Puts lines of the given depth between brackets. -/
def bracket (left right : Char) (depth : Nat) (lines : List (List Char)) :
    List Char :=
  if lines.isEmpty then [left, right]
  else
    left :: [','].intercalate (lines.map (newLine (depth + 1) ++ ·)) ++
      newLine depth ++ [right]

mutual

/-- The text of a value that starts on a line of the given depth. -/
def writeAt (depth : Nat) : Json → List Char
  | .null => "null".toList
  | .truth value => (if value then "true" else "false").toList
  | .number numeral => numeral.toList
  | .text value => quote value
  | .list items => bracket '[' ']' depth (itemLines (depth + 1) items)
  | .object fields => bracket '{' '}' depth (fieldLines (depth + 1) fields)

/-- The texts of list items. -/
def itemLines (depth : Nat) : List Json → List (List Char)
  | [] => []
  | item :: others => item.writeAt depth :: itemLines depth others

/-- The texts of fields with their names. -/
def fieldLines (depth : Nat) : List (String × Json) → List (List Char)
  | [] => []
  | (name, value) :: others =>
    (quote name ++ ':' :: ' ' :: value.writeAt depth) :: fieldLines depth others

end

/-- The text of a value. -/
def write (value : Json) : String :=
  String.ofList (value.writeAt 0)

end Json

end Flowchart
