/-!
# Breaking cycles

A layering needs arcs that all point the same way.  `greedyOrder` arranges the
vertices so that few arcs point backwards: sinks go to the end, sources to the
start, and where there is neither, the vertex with the greatest surplus of
outgoing arcs goes to the start.  `orient` turns the arcs that point backwards
in an arrangement.
-/

namespace Flowchart.Layered

/-- A connection from one vertex to another. -/
structure Arc where
  source : Nat
  target : Nat
  deriving DecidableEq, Repr

def Arc.reverse (arc : Arc) : Arc :=
  ⟨arc.target, arc.source⟩

/-- Both ends of the arcs, in the order in which they are named. -/
def endpoints (arcs : List Arc) : List Nat :=
  (arcs.flatMap fun arc => [arc.source, arc.target]).eraseDups

/-- The number of arcs from the vertex to one of the given vertices. -/
def outDegree (arcs : List Arc) (vertices : List Nat) (v : Nat) : Nat :=
  arcs.countP fun arc => arc.source == v && vertices.contains arc.target

/-- The number of arcs to the vertex from one of the given vertices. -/
def inDegree (arcs : List Arc) (vertices : List Nat) (v : Nat) : Nat :=
  arcs.countP fun arc => arc.target == v && vertices.contains arc.source

/-- Moves a vertex to the front of the waiting ones, if it is among them. -/
def moveToFront (waiting : List Nat) (v : Nat) : List Nat :=
  if waiting.contains v then v :: waiting.erase v else waiting

/-- Takes a vertex out; its neighbors move to the front of the waiting ones. -/
def takeOut (arcs : List Arc) (v : Nat) (waiting : List Nat) : List Nat :=
  let targets := (arcs.filter (·.source == v)).map Arc.target
  let sources := (arcs.filter (·.target == v)).map Arc.source
  (targets ++ sources).foldl moveToFront (waiting.erase v)

/-- No arc leads from the vertex to a waiting one. -/
def isSink (arcs : List Arc) (waiting : List Nat) (v : Nat) : Bool :=
  outDegree arcs waiting v == 0

/-- Arcs lead from the vertex to waiting ones, but none the other way. -/
def isSource (arcs : List Arc) (waiting : List Nat) (v : Nat) : Bool :=
  outDegree arcs waiting v != 0 && inDegree arcs waiting v == 0

/-- Takes out vertices as long as one passes the test: the vertices in that
order, and the ones that are left. -/
def drain (arcs : List Arc) (test : List Nat → Nat → Bool)
    (waiting : List Nat) : List Nat × List Nat :=
  match waiting.find? (test waiting) with
  | none => ([], waiting)
  | some v =>
    let rest := takeOut arcs v waiting
    if rest.length < waiting.length then
      let (taken, left) := drain arcs test rest
      (v :: taken, left)
    else ([v], [])
termination_by waiting.length

/-- How many more arcs leave the vertex than enter it. -/
def surplus (arcs : List Arc) (waiting : List Nat) (v : Nat) : Int :=
  outDegree arcs waiting v - inDegree arcs waiting v

/-- The first vertex of greatest surplus among those that are neither sinks nor
sources. -/
def greatestSurplus? (arcs : List Arc) (waiting : List Nat) : Option Nat :=
  let inner := waiting.filter fun v =>
    !isSink arcs waiting v && !isSource arcs waiting v
  match inner with
  | [] => none
  | v :: others =>
    some <| others.foldl (fun best v =>
      if surplus arcs waiting best < surplus arcs waiting v then v else best) v

/-- Arranges the waiting vertices. -/
def arrange (arcs : List Arc) (waiting : List Nat) : List Nat :=
  let (sinks, inner) := drain arcs (isSink arcs) waiting
  let (sources, rest) := drain arcs (isSource arcs) inner
  let (next, left) :=
    match greatestSurplus? arcs rest with
    | some v => ([v], takeOut arcs v rest)
    | none => ([], rest)
  let between := if left.length < waiting.length then arrange arcs left else left
  sources ++ next ++ between ++ sinks.reverse
termination_by waiting.length

/-- An arrangement of all vertices in which few arcs point backwards.  The
vertices named last are considered first. -/
def greedyOrder (arcs : List Arc) : List Nat :=
  arrange arcs (endpoints arcs).reverse

/-- The source of the arc does not stand before its target. -/
def pointsBack (order : List Nat) (arc : Arc) : Bool :=
  order.idxOf arc.target ≤ order.idxOf arc.source

/-- Turns the arcs that point back, and drops repetitions. -/
def orient (order : List Nat) (arcs : List Arc) : List Arc :=
  (arcs.map fun arc => if pointsBack order arc then arc.reverse else arc).eraseDups

end Flowchart.Layered
