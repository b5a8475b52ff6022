/-!
# Diagrams

The meaning of a diagram text: nodes with labels and shapes, edges between
nodes or groups, and groups that may be nested.  Nothing here speaks of
positions.
-/

namespace Flowchart

/-- The outline of a node. -/
inductive Shape where
  | rectangle
  | diamond
  | circle
  | stadium
  | rounded
  deriving DecidableEq, Repr, Inhabited

def Shape.all : List Shape :=
  [.rectangle, .diamond, .circle, .stadium, .rounded]

def Shape.name : Shape → String
  | .rectangle => "rectangle"
  | .diamond => "diamond"
  | .circle => "circle"
  | .stadium => "stadium"
  | .rounded => "rounded"

/-- How two nodes are joined. -/
inductive Connector where
  | arrow
  | line
  | dottedArrow
  | dottedLine
  | thickArrow
  | thickLine
  | circle
  | cross
  | bidirectional
  | invisible
  deriving DecidableEq, Repr, Inhabited

namespace Connector

def all : List Connector :=
  [.arrow, .line, .dottedArrow, .dottedLine, .thickArrow, .thickLine, .circle,
   .cross, .bidirectional, .invisible]

/-- The shortest spelling in a diagram text. -/
def token : Connector → String
  | .arrow => "-->"
  | .line => "---"
  | .dottedArrow => "-.->"
  | .dottedLine => "-.-"
  | .thickArrow => "==>"
  | .thickLine => "==="
  | .circle => "--o"
  | .cross => "--x"
  | .bidirectional => "<-->"
  | .invisible => "~~~"

/-- The name in a written graph. -/
def name : Connector → String
  | .arrow => "arrow"
  | .line => "open"
  | .dottedArrow => "dotted"
  | .dottedLine => "dottedOpen"
  | .thickArrow => "thick"
  | .thickLine => "thickOpen"
  | .circle => "circle"
  | .cross => "cross"
  | .bidirectional => "bidirectional"
  | .invisible => "invisible"

/-- The edge ends in an arrow head. -/
def hasArrow : Connector → Bool
  | .arrow | .dottedArrow | .thickArrow | .bidirectional => true
  | _ => false

def isDotted : Connector → Bool
  | .dottedArrow | .dottedLine => true
  | _ => false

def isThick : Connector → Bool
  | .thickArrow | .thickLine => true
  | _ => false

def isInvisible : Connector → Bool
  | .invisible => true
  | _ => false

end Connector

/-- The way in which ranks follow each other. -/
inductive Direction where
  | topBottom
  | bottomTop
  | leftRight
  | rightLeft
  deriving DecidableEq, Repr, Inhabited

namespace Direction

/-- Reads `TD`, `TB`, `BT`, `LR` or `RL` in any case of the ASCII letters. -/
def ofKeyword? (keyword : List Char) : Option Direction :=
  match keyword.map Char.toUpper with
  | ['T', 'D'] => some .topBottom
  | ['T', 'B'] => some .topBottom
  | ['B', 'T'] => some .bottomTop
  | ['L', 'R'] => some .leftRight
  | ['R', 'L'] => some .rightLeft
  | _ => none

/-- Ranks follow each other along the x axis. -/
def isHorizontal : Direction → Bool
  | .leftRight | .rightLeft => true
  | _ => false

/-- Ranks follow each other towards smaller coordinates. -/
def isReversed : Direction → Bool
  | .bottomTop | .rightLeft => true
  | _ => false

end Direction

structure Node where
  id : String
  /-- The text to show; lines are separated by line feeds. -/
  label : String
  shape : Shape
  /-- The innermost group around the node. -/
  group : Option String
  deriving DecidableEq, Repr

/-- A connection between two nodes or groups, named by their ids. -/
structure Edge where
  source : String
  target : String
  label : Option String
  connector : Connector
  deriving DecidableEq, Repr

/-- A container of nodes and of other groups. -/
structure Group where
  id : String
  title : String
  /-- The nodes directly inside, not those of nested groups. -/
  members : List String
  parent : Option String
  /-- The direction of the contents, where it is the group's own. -/
  direction : Option Direction
  deriving DecidableEq, Repr

/-- The group lies in no other group. -/
def Group.isTopLevel (group : Group) : Bool :=
  group.parent.isNone

structure Diagram where
  direction : Direction := .topBottom
  nodes : List Node := []
  edges : List Edge := []
  /-- The groups in the order in which they were opened. -/
  groups : List Group := []
  deriving DecidableEq, Repr, Inhabited

namespace Diagram

/-- The first node of the given id. -/
def node? (diagram : Diagram) (id : String) : Option Node :=
  diagram.nodes.find? (·.id == id)

/-- The first group of the given id. -/
def group? (diagram : Diagram) (id : String) : Option Group :=
  diagram.groups.find? (·.id == id)

def isEmpty (diagram : Diagram) : Bool :=
  diagram.nodes.isEmpty && diagram.groups.isEmpty

end Diagram

end Flowchart
