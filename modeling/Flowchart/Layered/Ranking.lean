import Flowchart.Layered.Digraph

/-!
# Ranks by the network simplex method

Every vertex of a connected acyclic graph gets a rank, such that arcs lead to
higher ranks and are short altogether.  A spanning tree of arcs that are as
short as possible is improved step by step: an arc with a negative cut value
leaves the tree, and the shortest arc that joins the two parts again takes its
place.
-/

namespace Flowchart.Layered

/-- A spanning tree, or the part of one that has been found so far, and the
ranks that go with it. -/
structure RankTree where
  rank : Array Int
  /-- The vertices that the tree has reached. -/
  reached : Array Bool
  /-- The arcs of the tree. -/
  inTree : Array Bool
  /-- The cut values of the arcs of the tree, as far as they are known. -/
  cut : Array (Option Int)
  /-- The least postorder number below each vertex. -/
  low : Array Int
  /-- The postorder number of each vertex. -/
  number : Array Int
  parent : Array (Option Nat)

namespace RankTree

def rankOf (tree : RankTree) (v : Nat) : Int :=
  tree.rank.getD v 0

def hasReached (tree : RankTree) (v : Nat) : Bool :=
  tree.reached.getD v false

def holds (tree : RankTree) (slot : Nat) : Bool :=
  tree.inTree.getD slot false

def cutOf? (tree : RankTree) (slot : Nat) : Option Int :=
  tree.cut.getD slot none

def lowOf (tree : RankTree) (v : Nat) : Int :=
  tree.low.getD v 0

def numberOf (tree : RankTree) (v : Nat) : Int :=
  tree.number.getD v 0

def parentOf? (tree : RankTree) (v : Nat) : Option Nat :=
  tree.parent.getD v none

/-- How much longer than necessary the arc is. -/
def slack (graph : Digraph) (tree : RankTree) (slot : Nat) : Int :=
  let arc := graph.arc slot
  tree.rankOf arc.target - tree.rankOf arc.source - 1

/-- The first of the arcs with the least slack. -/
def shortest? (graph : Digraph) (tree : RankTree) : List Nat → Option Nat
  | [] => none
  | slot :: others =>
    some <| others.foldl (fun best slot =>
      if tree.slack graph slot < tree.slack graph best then slot else best) slot

/-- Raises every rank to one more than the ranks below the vertex. -/
def raiseRanks (graph : Digraph) (rank : Array Int) : Array Int :=
  graph.vertices.foldl (fun rank v =>
    let least := (graph.predecessors v).foldl (fun least u =>
      max least (rank.getD u 0 + 1)) 0
    rank.setIfInBounds v least) rank

/-- The length of the longest path that leads to each vertex. -/
def longestPaths (graph : Digraph) : Array Int :=
  (List.range graph.used.size).foldl (fun rank _ => raiseRanks graph rank)
    (Array.replicate graph.used.size 0)

/-- Nothing but ranks. -/
def ofRanks (graph : Digraph) (rank : Array Int) : RankTree where
  rank := rank
  reached := Array.replicate graph.used.size false
  inTree := Array.replicate graph.arcs.size false
  cut := Array.replicate graph.arcs.size none
  low := Array.replicate graph.used.size 0
  number := Array.replicate graph.used.size 0
  parent := Array.replicate graph.used.size none

/-! ### The first tree -/

/-- Follows the arcs of the tree from a vertex, and takes in arcs without slack
that reach further.  Every arc is looked at once. -/
def extend (graph : Digraph) (v : Nat) (tree : RankTree) (seen : Array Bool) :
    Nat → RankTree × Array Bool
  | 0 => (tree, seen)
  | fuel + 1 =>
    let tree := { tree with reached := tree.reached.setIfInBounds v true }
    (graph.incident v).foldl (fun (tree, seen) (slot, other) =>
      if seen.getD slot false then (tree, seen)
      else
        let seen := seen.setIfInBounds slot true
        if tree.holds slot then extend graph other tree seen fuel
        else if tree.slack graph slot = 0 ∧ ¬ tree.hasReached other then
          extend graph other
            { tree with inTree := tree.inTree.setIfInBounds slot true } seen fuel
        else (tree, seen)) (tree, seen)

/-- Moves the part that the tree has reached until an arc that leaves it has no
slack. -/
def tighten (graph : Digraph) (tree : RankTree) (slot : Nat) : RankTree :=
  let slack := tree.slack graph slot
  let shift := if tree.hasReached (graph.arc slot).target then -slack else slack
  { tree with
    rank := (graph.vertices.filter tree.hasReached).foldl
      (fun rank v => rank.modify v (· + shift)) tree.rank }

/-- Extends the tree until it reaches every vertex. -/
def span (graph : Digraph) (root : Nat) (tree : RankTree) : Nat → RankTree
  | 0 => tree
  | fuel + 1 =>
    let fresh := Array.replicate graph.arcs.size false
    let (tree, _) := tree.extend graph root fresh (graph.arcs.size + 1)
    let leaving := graph.slots.filter fun slot =>
      let arc := graph.arc slot
      !tree.holds slot &&
        tree.hasReached arc.source != tree.hasReached arc.target
    match tree.shortest? graph leaving with
    | none => tree
    | some slot => (tree.tighten graph slot).span graph root fuel

/-! ### Cut values -/

/-- What the arcs on one side of a vertex contribute to a cut value. -/
structure Side where
  /-- The sum of the known cut values. -/
  known : Int := 0
  /-- The number of tree arcs with a known cut value. -/
  inTree : Int := 0
  /-- The number of other arcs. -/
  outside : Int := 0
  /-- The other end of the one tree arc without a cut value. -/
  open? : Option Nat := none

/-- Sums up the arcs on one side; there may be one open tree arc at most. -/
def side? (graph : Digraph) (tree : RankTree) (v : Nat) (slots : List Nat) :
    Option Side :=
  slots.foldlM (fun side slot =>
    if !tree.holds slot then
      some { side with outside := side.outside + 1 }
    else
      match tree.cutOf? slot with
      | some cut =>
        some { side with known := side.known + cut, inTree := side.inTree + 1 }
      | none =>
        if side.open?.isSome then none
        else
          let arc := graph.arc slot
          some { side with
            open? := some (if arc.source = v then arc.target else arc.source) })
    {}

/-- Determines the cut value of the one open tree arc at the vertex, and tells
the vertex at its other end. -/
def cutAt? (graph : Digraph) (tree : RankTree) (v : Nat) :
    Option (Nat × RankTree) := do
  let incoming ← tree.side? graph v (graph.arcsTo v)
  let outgoing ← tree.side? graph v (graph.arcsFrom v)
  let other ←
    match incoming.open?, outgoing.open? with
    | some other, none => some other
    | none, some other => some other
    | _, _ => none
  let (slot, near, far) ←
    match graph.slotBetween? v other with
    | some slot => some (slot, outgoing, incoming)
    | none =>
      (graph.slotBetween? other v).map fun slot => (slot, incoming, outgoing)
  let cut :=
    1 + near.outside - near.known + near.inTree - far.outside + far.known -
      far.inTree
  return (other, { tree with cut := tree.cut.setIfInBounds slot (some cut) })

/-- Determines cut values from the queued vertices on, leaf by leaf. -/
def cutValues (graph : Digraph) (tree : RankTree) :
    List Nat → Nat → RankTree
  | [], _ => tree
  | _ :: _, 0 => tree
  | v :: queue, fuel + 1 =>
    match tree.cutAt? graph v with
    | some (other, tree) => tree.cutValues graph (queue ++ [other]) fuel
    | none => tree.cutValues graph queue fuel

/-- The vertices with a single tree arc. -/
def leaves (graph : Digraph) (tree : RankTree) : List Nat :=
  graph.vertices.filter fun v =>
    ((graph.arcsTo v ++ graph.arcsFrom v).filter tree.holds).length == 1

/-- Enough steps to visit every vertex and every arc. -/
def steps (graph : Digraph) : Nat :=
  graph.used.size + graph.arcs.size + 1

/-! ### Numbering the tree -/

/-- Numbers the vertices below a vertex in postorder, downwards from the given
number, which is the vertex's own; tells the least number given. -/
def renumber (graph : Digraph) (v : Nat) (parent : Option Nat) (number : Int)
    (tree : RankTree) (seen : List Nat) :
    Nat → Int × RankTree × List Nat
  | 0 => (number, tree, seen)
  | fuel + 1 =>
    let tree := { tree with
      number := tree.number.setIfInBounds v number
      parent := tree.parent.setIfInBounds v parent }
    let (least, tree, seen) :=
      (graph.incident v).foldl (fun (least, tree, seen) (slot, other) =>
        if !seen.contains other && tree.holds slot then
          renumber graph other (some v) (least - 1) tree seen fuel
        else (least, tree, seen)) (number, tree, v :: seen)
    (least, { tree with low := tree.low.setIfInBounds v least }, seen)

/-! ### Exchanging arcs -/

/-- The slot of the tree arc between two vertices. -/
def slotOf (graph : Digraph) (v w : Nat) : Nat :=
  ((graph.slotBetween? v w) <|> (graph.slotBetween? w v)).getD 0

def forget (tree : RankTree) (slot : Nat) : RankTree :=
  { tree with cut := tree.cut.setIfInBounds slot none }

/-- The vertex is below the other one, or the same. -/
def isBelow (tree : RankTree) (v w : Nat) : Bool :=
  tree.lowOf w ≤ tree.numberOf v && tree.numberOf v ≤ tree.numberOf w

/-- Forgets the cut values on the way up from a vertex, to the first vertex
above it that is also above the other one. -/
def forgetToCommon (graph : Digraph) (other v : Nat) (tree : RankTree) :
    Nat → Nat × RankTree
  | 0 => (v, tree)
  | fuel + 1 =>
    match tree.parentOf? v with
    | none => (v, tree)
    | some parent =>
      let tree := tree.forget (slotOf graph v parent)
      if tree.isBelow other parent then (parent, tree)
      else forgetToCommon graph other parent tree fuel

/-- Forgets the cut values on the way up from a vertex to one above it. -/
def forgetUpTo (graph : Digraph) (top v : Nat) (tree : RankTree) :
    Nat → RankTree
  | 0 => tree
  | fuel + 1 =>
    if v = top then tree
    else
      match tree.parentOf? v with
      | none => tree
      | some parent =>
        forgetUpTo graph top parent
          (tree.forget (slotOf graph v parent)) fuel

/-- Ranks the vertices along the tree, from the queued ones on. -/
def rankAlong (graph : Digraph) (tree : RankTree) (seen : List Nat) :
    List Nat → Nat → RankTree
  | [], _ => tree
  | _ :: _, 0 => tree
  | v :: queue, fuel + 1 =>
    let visit (step : Int) (state : RankTree × List Nat × List Nat)
        (pair : Nat × Nat) : RankTree × List Nat × List Nat :=
      let (tree, seen, queue) := state
      let (slot, other) := pair
      if tree.holds slot && !seen.contains other then
        ({ tree with
          rank := tree.rank.setIfInBounds other (tree.rankOf v + step) },
          other :: seen, queue ++ [other])
      else state
    let state :=
      ((graph.arcsFrom v).zip (graph.successors v)).foldl (visit 1)
        (tree, seen, queue)
    let (tree, seen, queue) :=
      ((graph.arcsTo v).zip (graph.predecessors v)).foldl (visit (-1)) state
    rankAlong graph tree seen queue fuel

/-- The arc that takes the place of the leaving one. -/
def entering? (graph : Digraph) (tree : RankTree) (leaving : Nat) :
    Option Nat :=
  let arc := graph.arc leaving
  let rootAtHead := decide (tree.numberOf arc.source < tree.numberOf arc.target)
  let top := if rootAtHead then arc.source else arc.target
  let isInside (v : Nat) : Bool := tree.isBelow v top
  tree.shortest? graph <| graph.slots.filter fun slot =>
    let arc := graph.arc slot
    !tree.holds slot && rootAtHead == isInside arc.target &&
      rootAtHead != isInside arc.source

/-- Exchanges two arcs of the tree, and brings cut values, numbers and ranks up
to date. -/
def exchange (graph : Digraph) (root : Nat) (tree : RankTree)
    (leaving entering : Nat) : RankTree :=
  let fuel := steps graph
  let tree := { tree with
    inTree := (tree.inTree.setIfInBounds leaving false).setIfInBounds entering
      true }.forget leaving
  let arc := graph.arc entering
  let (lower, upper) :=
    if tree.numberOf arc.target < tree.numberOf arc.source then
      (arc.target, arc.source)
    else (arc.source, arc.target)
  let (common, tree) := forgetToCommon graph upper lower tree fuel
  let tree := forgetUpTo graph common upper tree fuel
  let tree := tree.cutValues graph [(graph.arc leaving).source] fuel
  let parent := tree.parentOf? common
  let (_, tree, _) :=
    renumber graph common parent (tree.numberOf common) tree parent.toList fuel
  let tree := { tree with rank := tree.rank.setIfInBounds root 0 }
  tree.rankAlong graph [root] [root] fuel

/-- Exchanges arcs as long as one has a negative cut value. -/
def improve (graph : Digraph) (root : Nat) (tree : RankTree) : Nat → RankTree
  | 0 => tree
  | fuel + 1 =>
    match graph.slots.find? fun slot => (tree.cutOf? slot).any (· < 0) with
    | none => tree
    | some leaving =>
      match tree.entering? graph leaving with
      | none => tree
      | some entering =>
        (tree.exchange graph root leaving entering).improve graph root fuel

end RankTree

/-- The ranks of the vertices, the least being zero. -/
def ranks (graph : Digraph) : Array Nat :=
  match graph.vertices with
  | [] => #[]
  | root :: others =>
    let fuel := RankTree.steps graph
    let tree := RankTree.ofRanks graph (RankTree.longestPaths graph)
    let tree := tree.span graph root fuel
    let tree := tree.cutValues graph (tree.leaves graph) fuel
    let (_, tree, _) :=
      RankTree.renumber graph root none graph.vertices.length tree [] fuel
    let tree := tree.improve graph root (fuel * fuel * fuel)
    let least := others.foldl (fun least v => min least (tree.rankOf v))
      (tree.rankOf root)
    tree.rank.map fun rank => (rank - least).toNat

end Flowchart.Layered
