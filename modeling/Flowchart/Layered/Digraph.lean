import Flowchart.Layered.FeedbackArcs

/-!
# Directed graphs with numbered slots

Vertices and arcs live in numbered slots.  A slot that falls vacant is the
first to be used again, and the arcs at a vertex are listed newest first; the
steps of a layout follow these orders.
-/

namespace Flowchart.Layered

/-- A directed graph.  All lists of slots are searched from the front. -/
structure Digraph where
  /-- Which vertex slots are in use. -/
  used : Array Bool
  /-- The arcs by slot. -/
  arcs : Array (Option Arc)
  /-- The slots of the arcs from each vertex, newest first. -/
  outgoing : Array (List Nat)
  /-- The slots of the arcs to each vertex, newest first. -/
  incoming : Array (List Nat)
  vacantVertices : List Nat
  vacantArcs : List Nat

namespace Digraph

/-- The vertices in use, in ascending order. -/
def vertices (graph : Digraph) : List Nat :=
  (List.range graph.used.size).filter fun v => graph.used.getD v false

/-- The slots of all arcs, in ascending order. -/
def slots (graph : Digraph) : List Nat :=
  (List.range graph.arcs.size).filter fun slot =>
    (graph.arcs.getD slot none).isSome

/-- The arc of a slot. -/
def arc (graph : Digraph) (slot : Nat) : Arc :=
  (graph.arcs.getD slot none).getD ⟨0, 0⟩

def arcsFrom (graph : Digraph) (v : Nat) : List Nat :=
  graph.outgoing.getD v []

def arcsTo (graph : Digraph) (v : Nat) : List Nat :=
  graph.incoming.getD v []

def successors (graph : Digraph) (v : Nat) : List Nat :=
  (graph.arcsFrom v).map fun slot => (graph.arc slot).target

def predecessors (graph : Digraph) (v : Nat) : List Nat :=
  (graph.arcsTo v).map fun slot => (graph.arc slot).source

/-- The arcs at a vertex, each with the vertex at its other end. -/
def incident (graph : Digraph) (v : Nat) : List (Nat × Nat) :=
  (graph.arcsFrom v).zip (graph.successors v) ++
    (graph.arcsTo v).zip (graph.predecessors v)

/-- The newest arc between two vertices. -/
def slotBetween? (graph : Digraph) (source target : Nat) : Option Nat :=
  (graph.arcsFrom source).find? fun slot => (graph.arc slot).target == target

/-- The part of a graph that holds the given vertices.  The slots of all other
vertices and arcs are vacant, the last ones to be used first. -/
def restrict (size : Nat) (arcs : List Arc) (inPart : Nat → Bool) : Digraph :=
  let numbered := arcs.zipIdx
  let kept := numbered.filter fun (arc, _) => inPart arc.source
  let slotsAt (select : Arc → Nat) (v : Nat) : List Nat :=
    ((kept.filter fun (arc, _) => select arc == v).map Prod.snd).reverse
  { used := ((List.range size).map inPart).toArray
    arcs := (arcs.map fun arc =>
      if inPart arc.source then some arc else none).toArray
    outgoing := ((List.range size).map (slotsAt Arc.source)).toArray
    incoming := ((List.range size).map (slotsAt Arc.target)).toArray
    vacantVertices := ((List.range size).filter (!inPart ·)).reverse
    vacantArcs := ((numbered.filter fun (arc, _) =>
      !inPart arc.source).map Prod.snd).reverse }

/-- Adds a vertex, and tells its slot. -/
def addVertex (graph : Digraph) : Nat × Digraph :=
  match graph.vacantVertices with
  | v :: vacant =>
    (v, { graph with
      used := graph.used.setIfInBounds v true
      outgoing := graph.outgoing.setIfInBounds v []
      incoming := graph.incoming.setIfInBounds v []
      vacantVertices := vacant })
  | [] =>
    (graph.used.size, { graph with
      used := graph.used.push true
      outgoing := graph.outgoing.push []
      incoming := graph.incoming.push [] })

/-- Lists the arc of the slot at both of its ends. -/
def attach (graph : Digraph) (slot : Nat) (arc : Arc) : Digraph :=
  { graph with
    outgoing := graph.outgoing.modify arc.source (slot :: ·)
    incoming := graph.incoming.modify arc.target (slot :: ·) }

def addArc (graph : Digraph) (arc : Arc) : Digraph :=
  match graph.vacantArcs with
  | slot :: vacant =>
    { graph with
      arcs := graph.arcs.setIfInBounds slot (some arc)
      vacantArcs := vacant }.attach slot arc
  | [] =>
    { graph with arcs := graph.arcs.push (some arc) }.attach graph.arcs.size arc

def removeArc (graph : Digraph) (slot : Nat) : Digraph :=
  let arc := graph.arc slot
  { graph with
    arcs := graph.arcs.setIfInBounds slot none
    outgoing := graph.outgoing.modify arc.source (·.erase slot)
    incoming := graph.incoming.modify arc.target (·.erase slot)
    vacantArcs := slot :: graph.vacantArcs }

end Digraph

end Flowchart.Layered
