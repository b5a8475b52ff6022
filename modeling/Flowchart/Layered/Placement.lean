import Flowchart.Diagram
import Flowchart.Layered.Component

/-!
# Layered layout of boxes

Boxes that are joined by arcs are laid out in ranks.  The engine only decides
on ranks and on the order within them; positions follow from the sizes of the
boxes.  Everything is computed from top to bottom: horizontal directions
exchange the axes before and after, and reversed ones flip the rank axis.
-/

namespace Flowchart

/-- A directed graph of sized boxes. -/
structure LayeredGraph (α : Type) where
  sizes : List (Size α)
  /-- Different arcs between different boxes, in the order of insertion. -/
  arcs : List Layered.Arc := []

/-- Where the boxes are put: top left corners in the order of the boxes, and the
size of the rectangle around all boxes. -/
structure Placement (α : Type) where
  positions : List (Point α)
  size : Size α
  deriving DecidableEq, Repr

/-- Why a layout cannot be made. -/
inductive LayoutFault where
  /-- The computed coordinates are not finite. -/
  | notFinite
  /-- A group is missing from the layout. -/
  | missingGroup (id : String)
  /-- A node is missing from the layout. -/
  | missingNode (id : String)
  deriving DecidableEq, Repr

def LayoutFault.message : LayoutFault → String
  | .notFinite => "layered layout produced non-finite coordinates"
  | .missingGroup id => "Group `" ++ id ++ "` was not laid out"
  | .missingNode id => "Node `" ++ id ++ "` was not laid out"

namespace Layered

variable {α : Type} [Scalar α]

/-- A box with the center that it gets. -/
structure Seat (α : Type) where
  item : Nat
  x : α
  y : α

/-- Seats the items of a rank from left to right.  An item keeps the center that
it would like to have, unless it would come too close to the right edge of its
left neighbor. -/
def seatRank (sizes : List (Size α)) (gap y : α) (right? : Option α) :
    Rank α → List (Seat α)
  | [] => []
  | (item, desired) :: others =>
    let half := Scalar.half (sizeAt sizes item).width
    let x :=
      match right? with
      | some right => Scalar.larger desired (right + gap + half)
      | none => desired
    ⟨item, x, y⟩ :: seatRank sizes gap y (some (x + half)) others

/-- The height of the tallest item. -/
def rankHeight (sizes : List (Size α)) (rank : Rank α) : α :=
  Scalar.maximum (rank.map fun (item, _) => (sizeAt sizes item).height)

/-- Seats ranks one below the other, the first at the given height: the seats,
and the lower edge of the last rank. -/
def seatRanks (sizes : List (Size α)) (spacing : Spacing α) (top bottom : α) :
    Component α → List (Seat α) × α
  | [] => ([], bottom)
  | rank :: others =>
    let height := rankHeight sizes rank
    let seats :=
      seatRank sizes spacing.node (top + Scalar.half height) none rank
    let bottom := top + height
    let (more, last) :=
      seatRanks sizes spacing (bottom + spacing.rank) bottom others
    (seats ++ more, last)

def leftEdge (sizes : List (Size α)) (seat : Seat α) : α :=
  seat.x - Scalar.half (sizeAt sizes seat.item).width

def rightEdge (sizes : List (Size α)) (seat : Seat α) : α :=
  seat.x + Scalar.half (sizeAt sizes seat.item).width

/-- The corner of a box, where `left` is the left edge of its component, which
starts at the offset. -/
def corner (sizes : List (Size α)) (left offset : α) (seat : Seat α) :
    Nat × Point α :=
  (seat.item,
    ⟨leftEdge sizes seat - left + offset,
      seat.y - Scalar.half (sizeAt sizes seat.item).height⟩)

/-- Places one component to the right of the offset: the corners of its items,
and its size. -/
def placeComponent (sizes : List (Size α)) (spacing : Spacing α) (offset : α)
    (component : Component α) : List (Nat × Point α) × Size α :=
  let (seats, bottom) :=
    seatRanks sizes spacing Scalar.zero Scalar.zero component
  match Scalar.minimum? (seats.map (leftEdge sizes)),
      Scalar.maximum? (seats.map (rightEdge sizes)) with
  | some left, some right =>
    (seats.map (corner sizes left offset),
      if Scalar.isFinite right && Scalar.isFinite left then
        ⟨right - left, bottom⟩
      else Size.zero)
  | _, _ => ([], Size.zero)

/-- Places components side by side, the first at the offset: the corners of all
items, and the size of the rectangle up to here, which so far is `size`. -/
def placeComponents (sizes : List (Size α)) (spacing : Spacing α) (offset : α)
    (size : Size α) :
    List (Component α) → List (Nat × Point α) × Size α
  | [] => ([], size)
  | component :: others =>
    let (corners, own) := placeComponent sizes spacing offset component
    let width := offset + own.width
    let (more, total) :=
      placeComponents sizes spacing (width + spacing.node)
        ⟨width, Scalar.larger size.height own.height⟩ others
    (corners ++ more, total)

/-- Places components from top to bottom. -/
def placeDownward (sizes : List (Size α)) (spacing : Spacing α)
    (components : List (Component α)) : Placement α :=
  let (corners, size) :=
    placeComponents sizes spacing Scalar.zero Size.zero components
  let positions := (List.range sizes.length).map fun item =>
    (corners.lookup item).getD Point.origin
  ⟨positions, size⟩

/-- Turns the rank axis round. -/
def flipRanks (sizes : List (Size α)) (placement : Placement α) :
    Placement α :=
  { placement with
    positions := placement.positions.zipWith (fun position size =>
      ⟨position.x, placement.size.height - position.y - size.height⟩) sizes }

end Layered

namespace Placement

variable {α : Type} [Scalar α]

omit [Scalar α] in
/-- Exchanges the axes. -/
def transpose (placement : Placement α) : Placement α :=
  ⟨placement.positions.map Point.transpose, placement.size.transpose⟩

def isFinite (placement : Placement α) : Bool :=
  placement.positions.all Point.isFinite && placement.size.isFinite

end Placement

namespace LayeredGraph

open Layered

variable {α β : Type} [Scalar α] [Scalar β]

omit [Scalar α] in
/-- Adds an arc.  Loops, repetitions and arcs whose ends are not there are
disregarded. -/
def addArc (graph : LayeredGraph α) (source target : Nat) : LayeredGraph α :=
  let count := graph.sizes.length
  if source = target ∨ count ≤ source ∨ count ≤ target then graph
  else if graph.arcs.contains ⟨source, target⟩ then graph
  else { graph with arcs := graph.arcs ++ [⟨source, target⟩] }

omit [Scalar α] in
/-- The arcs, turned such that none points back in the arrangement. -/
def orientedArcs (graph : LayeredGraph α) : List Arc :=
  orient (greedyOrder graph.arcs) graph.arcs

/-- Places the boxes in the direction, given their components from top to
bottom. -/
def place (direction : Direction) (sizes : List (Size α))
    (spacing : Spacing α) (components : List (Component α)) : Placement α :=
  let placement := placeDownward sizes spacing components
  let placement :=
    if direction.isReversed then flipRanks sizes placement else placement
  if direction.isHorizontal then placement.transpose else placement

/-- Lays out the graph. -/
def layout (engine : Engine α β) (graph : LayeredGraph α)
    (direction : Direction) (spacing : Spacing α) :
    Except LayoutFault (Placement α) :=
  if graph.sizes.isEmpty then .ok ⟨[], Size.zero⟩
  else
    let sizes :=
      if direction.isHorizontal then graph.sizes.map Size.transpose
      else graph.sizes
    let placement := place direction sizes spacing
      (components engine graph.orientedArcs sizes spacing)
    if placement.isFinite then .ok placement else .error .notFinite

end LayeredGraph

end Flowchart
