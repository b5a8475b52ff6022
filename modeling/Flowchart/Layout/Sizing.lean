import Flowchart.Diagram
import Flowchart.Settings
import Flowchart.Text.Basic

/-!
# Sizes from labels

The size of a node is estimated from the number of lines of its label and from
the number of characters in the longest one.  A group is at least as wide as
its title.
-/

namespace Flowchart

variable {α : Type} [Scalar α]

namespace NodeSizing

/-- The number of characters in the longest line. -/
def longestLine (label : List Char) : Nat :=
  ((Text.lines label).map List.length).foldl max 0

/-- The size of a plain box around a label.  The greatest width wins over the
least one. -/
def plainSize (sizing : NodeSizing α) (label : List Char) : Size α where
  width :=
    Scalar.smaller
      (Scalar.larger
        (Scalar.ofNat (longestLine label) * sizing.charWidth + sizing.paddingX)
        sizing.minWidth)
      sizing.maxWidth
  height :=
    Scalar.ofNat (Text.lines label).length * sizing.lineHeight + sizing.paddingY

/-- The size of a node.  Diamonds are scaled, and circles become squares. -/
def nodeSize (sizing : NodeSizing α) (label : List Char) (shape : Shape) :
    Size α :=
  let size := sizing.plainSize label
  match shape with
  | .diamond => size.scale sizing.diamondScale
  | .circle =>
    let side := Scalar.larger size.width size.height + sizing.circleMargin
    ⟨side, side⟩
  | .rectangle | .stadium | .rounded => size

end NodeSizing

namespace LayoutSettings

/-- The width that the title of a group takes. -/
def titleWidth (settings : LayoutSettings α) (title : String) : α :=
  Scalar.ofNat title.length * settings.node.charWidth +
    settings.groupInsets.horizontal

/-- The size of a group without contents, which is at least as wide as a
node. -/
def emptyGroupSize (settings : LayoutSettings α) (title : String) : Size α :=
  let width := Scalar.larger (settings.titleWidth title) settings.node.minWidth
  (Size.zero.pad settings.groupInsets).max ⟨width, Scalar.zero⟩

end LayoutSettings

end Flowchart
