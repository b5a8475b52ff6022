import Flowchart.Color.Css
import Flowchart.Diagram

/-!
# Colors

A color keeps the spelling of its author, which has the form of a CSS color.
The colors of nodes follow from their shape and the colors of edges from a
palette, so that equal diagrams look the same.
-/

namespace Flowchart

/-- A text of the form of a CSS color. -/
structure Color where
  css : String
  css_isCssText : Color.isCssText css.toList = true
  deriving DecidableEq

namespace Color

/-- The text is not a color; carries it as it was given. -/
structure Invalid where
  text : String
  deriving DecidableEq, Repr

def Invalid.message (invalid : Invalid) : String :=
  "invalid color `" ++ invalid.text ++ "`"

/-- Reads a color, disregarding white space around it. -/
def read (text : String) : Except Invalid Color :=
  let css := String.ofList (Text.trim text.toList)
  if h : isCssText css.toList then .ok ⟨css, h⟩ else .error ⟨text⟩

/-- The form in which a color is shown while looking for faults. -/
def inspect (color : Color) : String :=
  "Color(" ++ color.css ++ ")"

end Color

/-- The fill and the outline of a node. -/
structure ColorPair where
  background : Color
  border : Color
  deriving DecidableEq

def Shape.colors : Shape → ColorPair
  | .rectangle => ⟨⟨"#eef2ff", by decide⟩, ⟨"#6366f1", by decide⟩⟩
  | .diamond => ⟨⟨"#fef3c7", by decide⟩, ⟨"#d97706", by decide⟩⟩
  | .circle => ⟨⟨"#dcfce7", by decide⟩, ⟨"#16a34a", by decide⟩⟩
  | .stadium => ⟨⟨"#e0f2fe", by decide⟩, ⟨"#0284c7", by decide⟩⟩
  | .rounded => ⟨⟨"#fce7f3", by decide⟩, ⟨"#db2777", by decide⟩⟩

/-- The colors of every group. -/
def Group.colors : ColorPair :=
  ⟨⟨"#f8fafc", by decide⟩, ⟨"#94a3b8", by decide⟩⟩

/-- Colors to be used in turn. -/
structure Palette where
  first : Color
  others : List Color
  deriving DecidableEq

namespace Palette

/-- The colors of edges where no others are asked for. -/
def default : Palette where
  first := ⟨"#6366f1", by decide⟩
  others :=
    [⟨"#0ea5e9", by decide⟩, ⟨"#10b981", by decide⟩, ⟨"#f59e0b", by decide⟩,
     ⟨"#ef4444", by decide⟩, ⟨"#8b5cf6", by decide⟩]

/-- The palette of the given colors; without any, the default one. -/
def ofList : List Color → Palette
  | [] => default
  | first :: others => ⟨first, others⟩

def colors (palette : Palette) : List Color :=
  palette.first :: palette.others

/-- The color for the thing of the given number; behind the last color, the
first one follows again. -/
def color (palette : Palette) (index : Nat) : Color :=
  palette.colors.get
    ⟨index % palette.colors.length, Nat.mod_lt _ (by simp [colors])⟩

end Palette

end Flowchart
