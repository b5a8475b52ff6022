import Flowchart.Layout

/-!
# Graphs to be drawn

A graph lists positioned boxes, outer groups before what they contain, and
styled edges.  The position of a box is relative to the group around it.  The
stroke of an edge follows from its connector.
-/

namespace Flowchart

/-- What a box of a graph stands for. -/
inductive Role where
  | group
  | node (shape : Shape)
  deriving DecidableEq, Repr

namespace Role

def name : Role → String
  | .group => "group"
  | .node _ => "node"

def shape? : Role → Option Shape
  | .group => none
  | .node shape => some shape

end Role

/-- What a box must not leave when it is moved. -/
inductive Extent where
  /-- The group around the box. -/
  | parent
  deriving DecidableEq, Repr

def Extent.name : Extent → String
  | .parent => "parent"

/-- A group or node with its place and its looks. -/
structure GraphNode (α : Type) where
  id : String
  role : Role
  label : String
  box : Box α
  /-- The group around the box. -/
  parent : Option String := none
  extent : Option Extent := none
  colors : ColorPair
  deriving DecidableEq

/-- Puts a box into the group, if there is one.  The box must not leave it. -/
def GraphNode.inside {α : Type} (node : GraphNode α) :
    Option String → GraphNode α
  | some group => { node with parent := some group, extent := some .parent }
  | none => node

/-- What is drawn at an end of an edge. -/
inductive Marker where
  | arrow
  | circle
  | cross
  deriving DecidableEq, Repr

def Marker.name : Marker → String
  | .arrow => "arrowClosed"
  | .circle => "circle"
  | .cross => "cross"

/-- How the line of an edge is drawn. -/
structure Stroke where
  isAnimated : Bool
  isDashed : Bool
  isHidden : Bool
  width : Float32
  startMarker : Option Marker
  endMarker : Option Marker
  deriving DecidableEq

namespace Connector

def startMarker (connector : Connector) : Option Marker :=
  if connector = .bidirectional then some .arrow else none

def endMarker (connector : Connector) : Option Marker :=
  match connector with
  | .circle => some .circle
  | .cross => some .cross
  | _ => if connector.hasArrow then some .arrow else none

/-- Dotted lines are dashed and move, thick ones are wider, and invisible ones
are hidden. -/
def stroke (connector : Connector) : Stroke where
  isAnimated := connector.isDotted
  isDashed := connector.isDotted
  isHidden := connector.isInvisible
  width := if connector.isThick then 3.5 else 1.5
  startMarker := connector.startMarker
  endMarker := connector.endMarker

end Connector

/-- An edge with its looks. -/
structure GraphEdge where
  id : String
  source : String
  target : String
  label : Option String
  connector : Connector
  color : Color
  deriving DecidableEq

structure Graph (α : Type) where
  nodes : List (GraphNode α) := []
  edges : List GraphEdge := []
  deriving DecidableEq

namespace Graph

variable {α : Type}

/-- The first box of the given id. -/
def node? (graph : Graph α) (id : String) : Option (GraphNode α) :=
  graph.nodes.find? (·.id == id)

def isEmpty (graph : Graph α) : Bool :=
  graph.nodes.isEmpty && graph.edges.isEmpty

end Graph

/-! ### Composing a graph -/

namespace Diagram

variable {α : Type}

/-- The box of a group at its place in the layout. -/
def composeGroup (layout : DiagramLayout α) (group : Group) :
    Except LayoutFault (GraphNode α) :=
  match layout.boxIn? group.id group.parent with
  | none => .error (.missingGroup group.id)
  | some box =>
    let node : GraphNode α :=
      { id := group.id
        role := .group
        label := group.title
        box := box
        colors := Group.colors }
    .ok (node.inside group.parent)

/-- The box of a node at its place in the layout. -/
def composeNode (layout : DiagramLayout α) (node : Node) :
    Except LayoutFault (GraphNode α) :=
  match layout.boxIn? node.id node.group with
  | none => .error (.missingNode node.id)
  | some box =>
    let leaf : GraphNode α :=
      { id := node.id
        role := .node node.shape
        label := node.label
        box := box
        colors := node.shape.colors }
    .ok (leaf.inside node.group)

/-- The id of an edge tells its number and its ends. -/
def edgeId (edge : Edge) (index : Nat) : String :=
  "e" ++ toString index ++ "-" ++ edge.source ++ "-" ++ edge.target

def composeEdge (palette : Palette) (edge : Edge) (index : Nat) :
    GraphEdge where
  id := edgeId edge index
  source := edge.source
  target := edge.target
  label := edge.label
  connector := edge.connector
  color := palette.color index

/-- The graph of a laid out diagram: groups, then nodes, and every edge, whether
or not its ends exist. -/
def compose (diagram : Diagram) (layout : DiagramLayout α)
    (palette : Palette) : Except LayoutFault (Graph α) := do
  let groups ← diagram.groups.mapM (composeGroup layout)
  let nodes ← diagram.nodes.mapM (composeNode layout)
  let edges := diagram.edges.zipIdx.map fun (edge, index) =>
    composeEdge palette edge index
  return ⟨groups ++ nodes, edges⟩

end Diagram

end Flowchart
