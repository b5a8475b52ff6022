import Flowchart.Settings

/-!
# Settings from documents

Settings are written as nested tables.  Every entry is optional, and entries
that are not known are passed over; an entry of the wrong kind makes the whole
document unusable.  In place of a table there may be the list of its values, in
the order of the settings.
-/

namespace Flowchart

/-- A value in a file of settings. -/
inductive Document where
  | null
  | truth (value : Bool)
  | integer (value : Int)
  | number (value : Float)
  | text (value : String)
  | list (values : List Document)
  | table (entries : List (String × Document))
  deriving Inhabited

namespace Document

/-- The entries of a table, or of a list of values for the given names. -/
def entries? (names : List String) :
    Document → Option (List (String × Document))
  | .table entries => some entries
  | .list values => some (names.zip values)
  | _ => none

/-- Reads the entry of the given name; without one, the default counts. -/
def entryOr {β : Type} (entries : List (String × Document)) (name : String)
    (read : Document → Option β) (default : β) : Option β :=
  match entries.lookup name with
  | some value => read value
  | none => some default

/-- Reads a number in single precision.  Integers are rounded once, and have
at most 64 bits. -/
def single? : Document → Option Float32
  | .integer value =>
    if -0x8000000000000000 ≤ value ∧ value < 0x10000000000000000 then
      some (Float32.ofInt value)
    else none
  | .number value => some value.toFloat32
  | _ => none

/-- Reads a value that may be left empty. -/
def nullOr {β : Type} (read : Document → Option β) (default : β) :
    Document → Option β
  | .null => some default
  | value => read value

/-- A list is too short to name all of so many values. -/
def isShort (count : Nat) : Document → Bool
  | .list values => values.length < count
  | _ => false

/-- Reads distances; what is not given stays as it is.  A list of distances
has to be complete. -/
def spacing? (default : Spacing Float32) (document : Document) :
    Option (Spacing Float32) := do
  let names := ["node_separation", "rank_separation"]
  let entries ← document.entries? names
  if document.isShort names.length then none
  let node ←
    entryOr entries "node_separation" (nullOr single? default.node) default.node
  let rank ←
    entryOr entries "rank_separation" (nullOr single? default.rank) default.rank
  return ⟨node, rank⟩

def nodeSizing? (document : Document) : Option (NodeSizing Float32) := do
  let entries ← document.entries?
    ["char_width", "line_height", "padding_x", "padding_y", "min_width",
      "max_width", "diamond_scale", "circle_margin"]
  let default := NodeSizing.default
  let charWidth ← entryOr entries "char_width" single? default.charWidth
  let lineHeight ← entryOr entries "line_height" single? default.lineHeight
  let paddingX ← entryOr entries "padding_x" single? default.paddingX
  let paddingY ← entryOr entries "padding_y" single? default.paddingY
  let minWidth ← entryOr entries "min_width" single? default.minWidth
  let maxWidth ← entryOr entries "max_width" single? default.maxWidth
  let diamondScale ←
    entryOr entries "diamond_scale" single? default.diamondScale
  let circleMargin ←
    entryOr entries "circle_margin" single? default.circleMargin
  return ⟨charWidth, lineHeight, paddingX, paddingY, minWidth, maxWidth,
    diamondScale, circleMargin⟩

def layoutSettings? (document : Document) :
    Option (LayoutSettings Float32) := do
  let entries ← document.entries?
    ["group", "meta", "group_padding", "header_height", "node"]
  let default := LayoutSettings.default
  let inner ← entryOr entries "group" (spacing? default.inner) default.inner
  let outer ← entryOr entries "meta" (spacing? default.outer) default.outer
  let padding ← entryOr entries "group_padding" single? default.groupPadding
  let header ← entryOr entries "header_height" single? default.headerHeight
  let node ← entryOr entries "node" nodeSizing? default.node
  return ⟨inner, outer, padding, header, node⟩

def color? : Document → Option Color
  | .text css => (Color.read css).toOption
  | _ => none

def palette? : Document → Option (List Color)
  | .list values => values.mapM color?
  | _ => none

def styleSettings? (document : Document) : Option StyleSettings := do
  let entries ← document.entries? ["edge_palette"]
  let palette ←
    entryOr entries "edge_palette" (nullOr palette? []) []
  return ⟨palette⟩

end Document

/-- The settings that a document asks for. -/
def Settings.ofDocument? (document : Document) : Option Settings := do
  let entries ← document.entries? ["layout", "style"]
  let layout ←
    Document.entryOr entries "layout" Document.layoutSettings? .default
  let style ← Document.entryOr entries "style" Document.styleSettings? {}
  return ⟨layout, style⟩

end Flowchart
