import Flowchart.Layered.Alignment
import Flowchart.Layered.Ranking
import Flowchart.Scalar

/-!
# Coordinates from a layering engine

An `Engine` turns the arcs of an acyclic graph into coordinates, one list for
each connected part.  `sugiyama` ranks the vertices, orders them within the
ranks and aligns them.  What happens to the coordinates afterwards does not
depend on the engine that they come from.
-/

namespace Flowchart.Layered

/-- A vertex with the coordinates that an engine gives it. -/
structure Located (β : Type) where
  vertex : Nat
  x : β
  y : β

/-- A source of coordinates of type `β` for layouts over `α`. -/
structure Engine (α β : Type) where
  /-- Converts a length of the layout. -/
  widen : α → β
  /-- Converts a coordinate back. -/
  narrow : β → α
  /-- The coordinates of the vertices below a number, for each connected part of
  the acyclic graph with the given arcs and the given vertex spacing. -/
  locate : Nat → List Arc → β → List (List (Located β))

/-- Joins the parts that hold the ends of an arc. -/
def joinParts (parts : List (List Nat)) (arc : Arc) : List (List Nat) :=
  let (touched, others) := parts.partition fun part =>
    part.contains arc.source || part.contains arc.target
  touched.flatten :: others

/-- The vertices below a number, in parts that are connected by the arcs. -/
def connectedParts (size : Nat) (arcs : List Arc) : List (List Nat) :=
  arcs.foldl joinParts ((List.range size).map ([·]))

/-- The coordinates of one connected part. -/
def locatePart (size : Nat) (arcs : List Arc) (spacing : Float)
    (part : List Nat) : List (Located Float) :=
  let graph := Digraph.restrict size arcs part.contains
  let layering := Layering.ofRanks graph (ranks graph)
  let width (v : Nat) : Float :=
    if layering.dummies.contains v then 1.0 else spacing
  let x := horizontal layering width
  (layering.graph.vertices.filter (!layering.dummies.contains ·)).map fun v =>
    ⟨v, x.getD v 0.0, Float.ofNat (layering.rankOf v) * spacing⟩

/-- Ranks by the network simplex method, few crossings by sweeping, and
coordinates by alignment.  A spacing that is not a number counts as none. -/
def sugiyama : Engine Float32 Float where
  widen := Float32.toFloat
  narrow := Float.toFloat32
  locate size arcs spacing :=
    (connectedParts size arcs).map
      (locatePart size arcs (Scalar.larger Scalar.zero spacing))

end Flowchart.Layered
