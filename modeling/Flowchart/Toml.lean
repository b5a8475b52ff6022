import Flowchart.Toml.Value

/-!
# TOML

A document is a sequence of statements, each on a line of its own: headers open
tables, and assignments set their entries.  `Toml.read?` reads it if it is well
formed and no statement contradicts an earlier one.
-/

namespace Flowchart.Toml

open Text

inductive Statement where
  /-- Opens a table. -/
  | header (key : Key)
  /-- Opens one more table of a series. -/
  | seriesHeader (key : Key)
  /-- Sets an entry of the open table. -/
  | assignment (key : Key) (value : Document)

/-- Reads a statement. -/
def statement? (text : List Char) : Option (Statement × List Char) :=
  match text with
  | '[' :: '[' :: rest => do
    let (key, rest) ← key? rest
    let rest ← afterMark? ']' (← afterMark? ']' rest)
    return (.seriesHeader key, rest)
  | '[' :: rest => do
    let (key, rest) ← key? rest
    return (.header key, ← afterMark? ']' rest)
  | text => do
    let ((key, value), rest) ← assignment? text
    return (.assignment key value, rest)

/-- Reads all statements. -/
def statements? (text : List Char) : Option (List Statement) :=
  match skipSpace text with
  | [] => some []
  | start =>
    match (statement? start).bind fun (statement, rest) =>
      (afterLine? rest).map fun rest => (statement, rest) with
    | none => none
    | some (statement, rest) =>
      if rest.length < text.length then
        (statements? rest).map (statement :: ·)
      else none
termination_by text.length

/-- A document that is being built: its tables, and the path of the open
one. -/
structure Draft where
  entries : Entries
  table : List String

/-- The draft after one more statement. -/
def Draft.add? (draft : Draft) : Statement → Option Draft
  | .header key => do
    return ⟨← openTable? key draft.entries, key.path ++ [key.name]⟩
  | .seriesHeader key => do
    return ⟨← openNext? key draft.entries, key.path ++ [key.name]⟩
  | .assignment key value => do
    let entries ← assignIn? draft.table key value draft.entries
    return { draft with entries }

/-- The text without a byte order mark at its start. -/
def skipOrderMark : List Char → List Char
  | '\uFEFF' :: text => text
  | text => text

/-- Reads a document. -/
def read? (text : List Char) : Option Document := do
  let statements ← statements? (skipOrderMark text)
  let draft ← statements.foldlM Draft.add? ⟨[], []⟩
  return .table (documents draft.entries)

end Flowchart.Toml
