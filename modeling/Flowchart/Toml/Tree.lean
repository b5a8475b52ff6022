import Flowchart.Settings.Document

/-!
# Tables of a TOML document

A document is a tree of tables that grows statement by statement.  What may be
added to a table depends on its origin: a table that has a header of its own is
not opened again, neither by another header nor by the dots of a key, and a table
that dots have made grows only by dots.
-/

namespace Flowchart.Toml

/-- How a table came about. -/
inductive Origin where
  /-- It has been opened by its header. -/
  | header
  /-- It lies on the way to a table further down. -/
  | passage
  /-- It lies on the way to an entry whose key has dots. -/
  | dots
  deriving DecidableEq, Repr

/-- What stands under a key. -/
inductive Tree where
  | value (document : Document)
  | table (origin : Origin) (entries : List (String × Tree))
  /-- Tables with one header in double brackets; only the last one grows. -/
  | series (earlier : List Document) (last : List (String × Tree))

/-- The entries of a table. -/
abbrev Entries := List (String × Tree)

/-- A name in a table, and the keys of the tables on the way to it. -/
structure Key where
  path : List String
  name : String
  deriving DecidableEq, Repr

/-! ### Finished tables -/

mutual

def Tree.document : Tree → Document
  | .value document => document
  | .table _ entries => .table (documents entries)
  | .series earlier last => .list (earlier ++ [.table (documents last)])

/-- The entries of a table with their documents. -/
def documents : List (String × Tree) → List (String × Document)
  | [] => []
  | (name, tree) :: others => (name, tree.document) :: documents others

end

/-! ### Growing tables -/

/-- Changes what stands under a name, which may be nothing yet. -/
def alter? (name : String) (change : Option Tree → Option Tree) :
    Entries → Option Entries
  | [] => (change none).map fun tree => [(name, tree)]
  | entry :: others =>
    if entry.1 = name then
      (change (some entry.2)).map fun tree => (name, tree) :: others
    else (alter? name change others).map (entry :: ·)

/-- Changes the table at the end of a path, whose origin the change is told.
Missing tables are made on the way, with the given origin.  Dots do not pass a
table that has a header. -/
def alterAt? (made : Origin) (change : Origin → Entries → Option Entries) :
    List String → Origin → Entries → Option Entries
  | [], origin, entries => change origin entries
  | name :: path, _, entries =>
    alter? name (fun
      | none => (alterAt? made change path made []).map (.table made)
      | some (.table origin inner) =>
        if made = .dots ∧ origin = .header then none
        else (alterAt? made change path origin inner).map (.table origin)
      | some (.series earlier last) =>
        (alterAt? made change path .header last).map (.series earlier)
      | some (.value _) => none) entries

/-- Sets an entry that has not been set before. -/
def set? (name : String) (value : Document) : Entries → Option Entries :=
  alter? name fun
    | none => some (.value value)
    | some _ => none

/-- Assigns a value to a key.  Dots lead only into tables that dots have
made. -/
def assign? (key : Key) (value : Document) (entries : Entries) :
    Option Entries :=
  alterAt? .dots (fun origin entries =>
    if key.path.isEmpty || origin = .dots then set? key.name value entries
    else none) key.path .header entries

/-- Opens the table of a header. -/
def openTable? (key : Key) (entries : Entries) : Option Entries :=
  alterAt? .passage (fun _ entries =>
    alter? key.name (fun
      | none => some (.table .header [])
      | some (.table .passage inner) => some (.table .header inner)
      | some _ => none) entries) key.path .header entries

/-- Opens one more table under a header in double brackets. -/
def openNext? (key : Key) (entries : Entries) : Option Entries :=
  alterAt? .passage (fun _ entries =>
    alter? key.name (fun
      | none => some (.series [] [])
      | some (.series earlier last) =>
        some (.series (earlier ++ [.table (documents last)]) [])
      | some _ => none) entries) key.path .header entries

/-- Assigns a value inside the open table, which has the given path. -/
def assignIn? (table : List String) (key : Key) (value : Document)
    (entries : Entries) : Option Entries :=
  alterAt? .passage (fun _ entries => assign? key value entries) table .header
    entries

/-- The table of assignments that stand between braces. -/
def inlineTable? (assignments : List (Key × Document)) : Option Document :=
  (assignments.foldlM
      (fun entries assignment => assign? assignment.1 assignment.2 entries)
      ([] : Entries)).map fun entries => .table (documents entries)

end Flowchart.Toml
