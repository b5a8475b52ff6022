import Flowchart.Layered.Rows

/-!
# Horizontal coordinates

The vertices of neighboring rows are strung together to vertical blocks: each
vertex joins the median of its neighbors in the row before, as long as blocks
do not cross.  Blocks are then pushed together as closely as the vertex
spacing allows.  This is done from all four corners, and every vertex gets the
mean of the two middle results.
-/

namespace Flowchart.Layered

/-- One of the four corners from which the rows can be read. -/
structure Corner where
  /-- From the last row to the first. -/
  fromBelow : Bool
  /-- From the last vertex of each row to the first. -/
  fromRight : Bool
  deriving DecidableEq

def Corner.all : List Corner :=
  [⟨false, false⟩, ⟨false, true⟩, ⟨true, false⟩, ⟨true, true⟩]

/-- The rows as they are read from a corner, with the place of every vertex. -/
structure View where
  graph : Digraph
  rows : Array (Array Nat)
  /-- The number of the row of each vertex. -/
  row : Array Nat
  /-- The place of each vertex in its row. -/
  place : Array Nat
  /-- Arcs lead to the row before, not to the row behind. -/
  isUpward : Bool

namespace View

def ofRows (graph : Digraph) (rows : List (List Nat)) (corner : Corner) :
    View :=
  let rows := if corner.fromBelow then rows.reverse else rows
  let rows := if corner.fromRight then rows.map List.reverse else rows
  let blank := Array.replicate graph.used.size 0
  { graph := graph
    rows := (rows.map List.toArray).toArray
    row := rows.zipIdx.foldl (fun numbers (row, number) =>
      row.foldl (fun numbers v => numbers.setIfInBounds v number) numbers) blank
    place := rows.foldl Layering.setPositions blank
    isUpward := corner.fromBelow }

def rowOf (view : View) (v : Nat) : Nat :=
  view.row.getD v 0

def placeOf (view : View) (v : Nat) : Nat :=
  view.place.getD v 0

/-- The vertex at a place of a row. -/
def vertexAt? (view : View) (row place : Nat) : Option Nat :=
  (view.rows.getD row #[])[place]?

/-- The vertex in front of the given one in its row. -/
def before? (view : View) (v : Nat) : Option Nat :=
  match view.placeOf v with
  | 0 => none
  | place + 1 => view.vertexAt? (view.rowOf v) place

/-- The neighbors in the row before, in the order of that row. -/
def neighbors (view : View) (v : Nat) : List Nat :=
  let neighbors :=
    if view.isUpward then view.graph.successors v
    else view.graph.predecessors v
  neighbors.mergeSort fun u w => view.placeOf u ≤ view.placeOf w

end View

/-! ### Blocks -/

/-- Blocks as rings: every vertex knows the next one of its block and the first
one, its root. -/
structure Blocks where
  next : Array Nat
  root : Array Nat

namespace Blocks

def nextOf (blocks : Blocks) (v : Nat) : Nat :=
  blocks.next.getD v v

def rootOf (blocks : Blocks) (v : Nat) : Nat :=
  blocks.root.getD v v

/-- Every vertex on its own. -/
def single (size : Nat) : Blocks :=
  ⟨(List.range size).toArray, (List.range size).toArray⟩

/-- Puts a vertex behind the last one of a block. -/
def join (blocks : Blocks) (last v : Nat) : Blocks :=
  let root := blocks.rootOf last
  ⟨(blocks.next.setIfInBounds last v).setIfInBounds v root,
    blocks.root.setIfInBounds v root⟩

/-- The middle entries of a list, one or two. -/
def medians (vertices : List Nat) : List Nat :=
  match vertices.length with
  | 0 => []
  | count + 1 =>
    (vertices[count / 2]?).toList ++ (vertices[(count + 1) / 2]?).toList

/-- Joins a vertex to the first median neighbor that lies behind all those that
vertices of its row are joined to.  `bound` is one more than the last place that
is taken. -/
def joinMedian (view : View) (v : Nat) (state : Blocks × Nat) :
    Blocks × Nat :=
  (View.neighbors view v |> medians).foldl (fun (blocks, bound) u =>
    if blocks.nextOf v = v ∧ bound ≤ view.placeOf u then
      (blocks.join u v, view.placeOf u + 1)
    else (blocks, bound)) state

/-- Strings the vertices together, row by row. -/
def ofView (view : View) : Blocks :=
  view.rows.foldl (fun blocks row =>
    (row.foldl (fun state v => joinMedian view v state) (blocks, 0)).1)
    (single view.graph.used.size)

/-- The vertices of the block behind the given one. -/
def behind (blocks : Blocks) (v : Nat) : Nat → List Nat
  | 0 => []
  | fuel + 1 =>
    let next := blocks.nextOf v
    if next = blocks.rootOf v then [] else next :: blocks.behind next fuel

/-- The vertices of the block with the given root. -/
def members (blocks : Blocks) (root : Nat) : List Nat :=
  root :: blocks.behind root blocks.next.size

end Blocks

/-! ### Compaction -/

/-- Coordinates relative to the class of each block, and what the classes are
shifted by. -/
structure Compaction where
  x : Array Float
  isPlaced : Array Bool
  /-- The root that stands for the class of each vertex. -/
  sink : Array Nat
  shift : Array Float

namespace Compaction

def infinity : Float :=
  1.0 / 0.0

def initial (size : Nat) : Compaction where
  x := Array.replicate size 0.0
  isPlaced := Array.replicate size false
  sink := (List.range size).toArray
  shift := Array.replicate size infinity

def xOf (state : Compaction) (v : Nat) : Float :=
  state.x.getD v 0.0

def sinkOf (state : Compaction) (v : Nat) : Nat :=
  state.sink.getD v v

def shiftOf (state : Compaction) (v : Nat) : Float :=
  state.shift.getD v infinity

/-- What the compaction works on. -/
structure Input where
  view : View
  blocks : Blocks
  /-- The width of the block of each vertex. -/
  width : Array Float

/-- The least distance of two neighbors. -/
def Input.distance (input : Input) (v u : Nat) : Float :=
  (input.width.getD v 0.0 + input.width.getD u 0.0) * 0.5

/-- Moves a block behind the block in front of one of its vertices, if both
belong to one class. -/
def push (input : Input) (root neighbor : Nat) (state : Compaction) :
    Compaction :=
  let state :=
    if state.sinkOf root = root then
      { state with sink := state.sink.setIfInBounds root (state.sinkOf neighbor) }
    else state
  if state.sinkOf root = state.sinkOf neighbor then
    let least := state.xOf neighbor + input.distance root neighbor
    if state.xOf root < least then
      { state with x := state.x.setIfInBounds root least }
    else state
  else state

/-- Places a block, and before it all blocks that it leans against. -/
def placeBlock (input : Input) (root : Nat) (state : Compaction) :
    Nat → Compaction
  | 0 => state
  | fuel + 1 =>
    if state.isPlaced.getD root false then state
    else
      let members := input.blocks.members root
      let state := { state with
        isPlaced := state.isPlaced.setIfInBounds root true }
      let state := members.foldl (fun state v =>
        match input.view.before? v with
        | none => state
        | some u =>
          let neighbor := input.blocks.rootOf u
          push input root neighbor (placeBlock input neighbor state fuel)) state
      members.foldl (fun state v => { state with
        x := state.x.setIfInBounds v (state.xOf root)
        sink := state.sink.setIfInBounds v (state.sinkOf root) }) state

/-- Keeps the class in front of a vertex clear of the vertex. -/
def clear (input : Input) (v : Nat) (state : Compaction) : Compaction :=
  match input.view.before? v with
  | none => state
  | some u =>
    let gap := state.xOf v - (state.xOf u + input.distance v u)
    let bound := state.shiftOf (state.sinkOf v) + gap
    let target := state.sinkOf u
    if bound < state.shiftOf target then
      { state with shift := state.shift.setIfInBounds target bound }
    else state

/-- Follows the border of a class: down along a block, then on to the next
vertex of the row, as long as it is of the same class. -/
def followBorder (input : Input) (v : Nat) (state : Compaction) :
    Nat → Compaction
  | 0 => state
  | fuel + 1 =>
    let below := input.blocks.behind v input.blocks.next.size
    let state := below.foldl (fun state v => clear input v state) state
    let last := below.getLastD v
    match input.view.vertexAt? (input.view.rowOf last)
        (input.view.placeOf last + 1) with
    | none => state
    | some next =>
      if state.sinkOf last = state.sinkOf next then
        followBorder input next state fuel
      else state

/-- Shifts the classes that start in the first place of a row. -/
def shiftClasses (input : Input) (state : Compaction) : Compaction :=
  input.view.rows.foldl (fun state row =>
    match row[0]? with
    | none => state
    | some v =>
      if state.sinkOf v = v then
        let state :=
          if state.shiftOf v == infinity then
            { state with shift := state.shift.setIfInBounds v 0.0 }
          else state
        followBorder input v state (input.blocks.next.size + 1)
      else state) state

/-- The coordinates as seen from one corner. -/
def coordinates (layering : Layering) (width : Nat → Float)
    (rows : List (List Nat)) (corner : Corner) : Array Float :=
  let view := View.ofRows layering.graph rows corner
  let blocks := Blocks.ofView view
  let size := layering.graph.used.size
  let vertices := layering.graph.vertices
  let roots := vertices.filter fun v => blocks.rootOf v == v
  let widths := roots.foldl (fun widths root =>
    let members := blocks.members root
    let widest := members.foldl (fun widest v =>
      if widest < width v then width v else widest) (width root)
    members.foldl (fun widths v => widths.setIfInBounds v widest) widths)
    (Array.replicate size 0.0)
  let input : Input := ⟨view, blocks, widths⟩
  let state := roots.foldl (fun state root =>
    placeBlock input root state (size + 1)) (initial size)
  let state := shiftClasses input state
  vertices.foldl (fun x v =>
    let shifted := state.xOf v + state.shiftOf (state.sinkOf v)
    x.setIfInBounds v (if corner.fromRight then -shifted else shifted)) state.x

end Compaction

/-! ### Four corners -/

/-- The least and the greatest of the coordinates of the vertices. -/
def extent (vertices : List Nat) (x : Array Float) : Float × Float :=
  match vertices with
  | [] => (0.0, 0.0)
  | v :: others =>
    others.foldl (fun (least, greatest) v =>
      let x := x.getD v 0.0
      (if x < least then x else least, if greatest < x then x else greatest))
      (x.getD v 0.0, x.getD v 0.0)

/-- The narrowest of the results, the first of equals. -/
def narrowest (extents : List (Float × Float)) : Float × Float :=
  match extents with
  | [] => (0.0, 0.0)
  | first :: others =>
    others.foldl (fun best extent =>
      if extent.2 - extent.1 < best.2 - best.1 then extent else best) first

/-- The mean of the two middle ones of four numbers. -/
def middle (numbers : List Float) : Float :=
  let sorted := numbers.mergeSort fun x y => x ≤ y
  ((sorted[1]?).getD 0.0 + (sorted[2]?).getD 0.0) / 2.0

/-- The x coordinates of all vertices; the least is zero. -/
def horizontal (layering : Layering) (width : Nat → Float) : Array Float :=
  let vertices := layering.graph.vertices
  let rows := layering.rows
  let results := Corner.all.map fun corner =>
    (corner, Compaction.coordinates layering width rows corner)
  let extents := results.map fun (_, x) => extent vertices x
  let best := narrowest extents
  let shifted := (results.zip extents).map fun ((corner, x), extent) =>
    let shift :=
      if corner.fromRight then best.2 - extent.2 else extent.1 - best.1
    x.map (· + shift)
  let centered := vertices.foldl (fun x v =>
    x.setIfInBounds v (middle (shifted.map (·.getD v 0.0))))
    (Array.replicate layering.graph.used.size 0.0)
  let least := (extent vertices centered).1
  centered.map (· - least)

end Flowchart.Layered
