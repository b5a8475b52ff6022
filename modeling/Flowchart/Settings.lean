import Flowchart.Color
import Flowchart.Decimal.Text
import Flowchart.Layered.Component

/-!
# Settings

What can be set about the layout and the style of a graph, the defaults, and
which settings a layout accepts.
-/

namespace Flowchart

/-- How the size of a node follows from its label. -/
structure NodeSizing (α : Type) where
  charWidth : α
  lineHeight : α
  paddingX : α
  paddingY : α
  minWidth : α
  maxWidth : α
  /-- The factor for both sides of a diamond. -/
  diamondScale : α
  /-- What a circle is wider than the square around its label. -/
  circleMargin : α
  deriving DecidableEq, Repr

structure LayoutSettings (α : Type) where
  /-- Distances inside groups. -/
  inner : Spacing α
  /-- Distances outside of groups. -/
  outer : Spacing α
  groupPadding : α
  headerHeight : α
  node : NodeSizing α
  deriving DecidableEq, Repr

structure StyleSettings where
  /-- The colors of edges in turn; none stand for the default palette. -/
  palette : List Color := []
  deriving DecidableEq

structure Settings where
  layout : LayoutSettings Float32
  style : StyleSettings
  deriving DecidableEq

def NodeSizing.default : NodeSizing Float32 where
  charWidth := 8
  lineHeight := 20
  paddingX := 32
  paddingY := 24
  minWidth := 80
  maxWidth := 280
  diamondScale := 0.8
  circleMargin := 16

def LayoutSettings.default : LayoutSettings Float32 where
  inner := ⟨50, 60⟩
  outer := ⟨80, 100⟩
  groupPadding := 20
  headerHeight := 32
  node := .default

def Settings.default : Settings :=
  ⟨.default, {}⟩

/-- The palette that is asked for. -/
def StyleSettings.edgePalette (style : StyleSettings) : Palette :=
  Palette.ofList style.palette

/-- Why settings are refused. -/
inductive SettingsFault (α : Type) where
  /-- The value of the named setting is no amount. -/
  | notAmount (name : String) (value : α)
  /-- The least width of a node exceeds the greatest. -/
  | crossedWidths (least greatest : α)
  /-- Diamonds would vanish. -/
  | zeroScale
  deriving DecidableEq, Repr

def SettingsFault.message : SettingsFault Float32 → String
  | .notAmount name value =>
    "`" ++ name ++ "` must be a non-negative number, got " ++
      Decimal.write .message value
  | .crossedWidths least greatest =>
    "`layout.node.min_width` (" ++ Decimal.write .message least ++
      ") exceeds `layout.node.max_width` (" ++
      Decimal.write .message greatest ++ ")"
  | .zeroScale => "`layout.node.diamond_scale` must be greater than zero"

namespace LayoutSettings

variable {α : Type} [Scalar α]

/-- Space between the border of a group and its contents. -/
def groupInsets (settings : LayoutSettings α) : Insets α :=
  Insets.withHeader settings.groupPadding settings.headerHeight

omit [Scalar α] in
/-- All amounts by their names, in the order in which they are checked. -/
def amounts (settings : LayoutSettings α) : List (String × α) :=
  [("layout.group.node_separation", settings.inner.node),
   ("layout.group.rank_separation", settings.inner.rank),
   ("layout.meta.node_separation", settings.outer.node),
   ("layout.meta.rank_separation", settings.outer.rank),
   ("layout.group_padding", settings.groupPadding),
   ("layout.header_height", settings.headerHeight),
   ("layout.node.char_width", settings.node.charWidth),
   ("layout.node.line_height", settings.node.lineHeight),
   ("layout.node.padding_x", settings.node.paddingX),
   ("layout.node.padding_y", settings.node.paddingY),
   ("layout.node.min_width", settings.node.minWidth),
   ("layout.node.max_width", settings.node.maxWidth),
   ("layout.node.diamond_scale", settings.node.diamondScale),
   ("layout.node.circle_margin", settings.node.circleMargin)]

/-- A finite number that is not negative. -/
def isAmount (value : α) : Bool :=
  Scalar.isFinite value && !Scalar.less value Scalar.zero

/-- The first fault of the settings. -/
def fault? (settings : LayoutSettings α) : Option (SettingsFault α) :=
  match settings.amounts.find? fun (_, value) => !isAmount value with
  | some (name, value) => some (.notAmount name value)
  | none =>
    if Scalar.less settings.node.maxWidth settings.node.minWidth then
      some (.crossedWidths settings.node.minWidth settings.node.maxWidth)
    else if !Scalar.less Scalar.zero settings.node.diamondScale then
      some .zeroScale
    else none

end LayoutSettings

end Flowchart
