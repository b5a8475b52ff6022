import Flowchart.Layered.Digraph

/-!
# Rows with few crossings

Arcs that pass over ranks are cut into pieces that lead from one rank to the
next, with a dummy vertex at every cut.  The vertices of one rank form a row.
The rows are put in order by sweeping over them: each vertex moves to the mean
position of its neighbors in the row before, and neighbors in a row change
places where that saves crossings.  The best order that a sweep has reached is
kept, until four sweeps in a row bring nothing better.
-/

namespace Flowchart.Layered

/-- A graph whose arcs lead from one rank to the next. -/
structure Layering where
  graph : Digraph
  rank : Array Nat
  dummies : List Nat

namespace Layering

def rankOf (layering : Layering) (v : Nat) : Nat :=
  layering.rank.getD v 0

/-- Adds a dummy vertex of the given rank. -/
def addDummy (layering : Layering) (rank : Nat) : Nat × Layering :=
  let (v, graph) := layering.graph.addVertex
  let ranks :=
    if v < layering.rank.size then layering.rank.setIfInBounds v rank
    else layering.rank.push rank
  (v, ⟨graph, ranks, v :: layering.dummies⟩)

def addArc (layering : Layering) (arc : Arc) : Layering :=
  { layering with graph := layering.graph.addArc arc }

/-- Leads from a vertex through dummies of the given ranks to the target. -/
def addPath (layering : Layering) (source target : Nat) :
    List Nat → Layering
  | [] => layering.addArc ⟨source, target⟩
  | rank :: ranks =>
    let (dummy, layering) := layering.addDummy rank
    (layering.addArc ⟨source, dummy⟩).addPath dummy target ranks

/-- Replaces an arc by a path through all ranks that it passes over. -/
def cutArc (layering : Layering) (slot : Nat) : Layering :=
  let arc := layering.graph.arc slot
  let first := layering.rankOf arc.source + 1
  let last := layering.rankOf arc.target
  if first < last then
    { layering with graph := layering.graph.removeArc slot }.addPath arc.source
      arc.target ((List.range (last - first)).map (first + ·))
  else layering

/-- Cuts all arcs that pass over ranks. -/
def ofRanks (graph : Digraph) (rank : Array Nat) : Layering :=
  graph.slots.foldl cutArc ⟨graph, rank, []⟩

/-- The number of ranks. -/
def height (layering : Layering) : Nat :=
  layering.graph.vertices.foldl (fun height v =>
    max height (layering.rankOf v + 1)) 0

/-- The vertices in the order in which a search along the arcs from the given
vertex finds them, latest first, in front of those already found. -/
def search (graph : Digraph) (v : Nat) (found : List Nat) : Nat → List Nat
  | 0 => found
  | fuel + 1 =>
    if found.contains v then found
    else
      (graph.successors v).foldl (fun found w => search graph w found fuel)
        (v :: found)

/-- The rows in the order in which a search finds their vertices. -/
def initialRows (layering : Layering) : List (List Nat) :=
  let vertices := layering.graph.vertices
  let found := vertices.foldl (fun found v =>
    search layering.graph v found (vertices.length + 1)) []
  (List.range layering.height).map fun rank =>
    found.reverse.filter (layering.rankOf · == rank)

/-! ### Crossings -/

/-- The place of every vertex in its row. -/
def setPositions (positions : Array Nat) (row : List Nat) : Array Nat :=
  row.zipIdx.foldl (fun positions (v, place) =>
    positions.setIfInBounds v place) positions

def positions (layering : Layering) (rows : List (List Nat)) : Array Nat :=
  rows.foldl setPositions (Array.replicate layering.graph.used.size 0)

def placesOf (positions : Array Nat) (vertices : List Nat) : List Nat :=
  (vertices.map fun v => positions.getD v 0).mergeSort (· ≤ ·)

/-- The sum of the numbers. -/
def total (numbers : List Nat) : Nat :=
  numbers.foldl (· + ·) 0

/-- The number of pairs in which the first entry is the greater one. -/
def inversions : List Nat → Nat
  | [] => 0
  | place :: places => places.countP (· < place) + inversions places

/-- The number of crossings between all neighboring rows. -/
def crossings (layering : Layering) (rows : List (List Nat)) : Nat :=
  let positions := layering.positions rows
  total <| rows.map fun row =>
    inversions <| row.flatMap fun v =>
      placesOf positions (layering.graph.successors v)

/-- The number of pairs of an entry of the first and a smaller one of the second
list. -/
def descents (first second : List Nat) : Nat :=
  total (first.map fun place => second.countP (· < place))

/-- The number of crossings of the arcs at two neighbors in a row. -/
def crossingsBetween (graph : Digraph) (positions : Array Nat) (v w : Nat) :
    Nat :=
  descents (placesOf positions (graph.predecessors v))
      (placesOf positions (graph.predecessors w)) +
    descents (placesOf positions (graph.successors v))
      (placesOf positions (graph.successors w))

/-! ### Sweeps -/

/-- A mean position, as a sum and a count. -/
structure Mean where
  sum : Nat
  count : Nat

def Mean.atMost (first second : Mean) : Bool :=
  first.sum * second.count ≤ second.sum * first.count

/-- The mean position of the neighbors; without neighbors, the vertex stays. -/
def mean (positions : Array Nat) (neighbors : Nat → List Nat) (v : Nat) :
    Mean :=
  match neighbors v with
  | [] => ⟨positions.getD v 0, 1⟩
  | places => ⟨total (places.map fun u => positions.getD u 0), places.length⟩

/-- Sorts the rows, one after the other, by the mean positions of the
neighbors. -/
def sortRows (neighbors : Nat → List Nat) (positions : Array Nat) :
    List (List Nat) → List (List Nat)
  | [] => []
  | row :: rows =>
    let keyed := row.map fun v => (mean positions neighbors v, v)
    let sorted :=
      (keyed.mergeSort fun first second =>
        first.1.atMost second.1).map Prod.snd
    sorted :: sortRows neighbors (setPositions positions sorted) rows

/-- Lets a vertex change places with the vertices behind it, as long as that
saves crossings, and goes on with the vertex that stays behind. -/
def exchangeFrom (graph : Digraph) (positions : Array Nat) (v : Nat) :
    List Nat → List Nat
  | [] => [v]
  | w :: others =>
    if crossingsBetween graph positions w v <
        crossingsBetween graph positions v w then
      w :: exchangeFrom graph positions v others
    else v :: exchangeFrom graph positions w others

def exchangeRow (graph : Digraph) (positions : Array Nat) :
    List Nat → List Nat
  | [] => []
  | v :: others => exchangeFrom graph positions v others

/-- Lets neighbors change places in the rows, one after the other. -/
def exchangeRows (graph : Digraph) (positions : Array Nat) :
    List (List Nat) → List (List Nat)
  | [] => []
  | row :: rows =>
    let better := exchangeRow graph positions row
    better :: exchangeRows graph (setPositions positions better) rows

/-- Whether a sweep goes towards higher ranks. -/
inductive Sweep where
  | down
  | up
  deriving DecidableEq

def Sweep.next : Sweep → Sweep
  | .down => .up
  | .up => .down

/-- The rows in the order of the sweep. -/
def Sweep.along (sweep : Sweep) (rows : List (List Nat)) : List (List Nat) :=
  match sweep with
  | .down => rows
  | .up => rows.reverse

/-- Lets neighbors change places until that saves nothing any more. -/
def exchangeAll (layering : Layering) (sweep : Sweep)
    (rows : List (List Nat)) : Nat → List (List Nat)
  | 0 => rows
  | fuel + 1 =>
    let better := sweep.along <|
      exchangeRows layering.graph (layering.positions rows) (sweep.along rows)
    if better == rows then rows else layering.exchangeAll sweep better fuel

/-- Sweeps once over the rows. -/
def sweepOver (layering : Layering) (sweep : Sweep)
    (rows : List (List Nat)) : List (List Nat) :=
  let neighbors :=
    match sweep with
    | .down => layering.graph.predecessors
    | .up => layering.graph.successors
  let sorted :=
    match sweep.along rows with
    | [] => []
    | first :: others =>
      first :: sortRows neighbors (layering.positions rows) others
  let rows := sweep.along sorted
  layering.exchangeAll sweep rows (layering.crossings rows + 1)

/-- The sweeps without a better order after which the search ends. -/
def patience : Nat :=
  4

/-- Sweeps until `patience` sweeps in a row bring nothing better than the best
order so far, which has `least` crossings. -/
def bestRows (layering : Layering) (sweep : Sweep)
    (rows best : List (List Nat)) (least : Nat) (idle : Nat) :
    List (List Nat) :=
  let rows := layering.sweepOver sweep rows
  let crossings := layering.crossings rows
  if crossings < least then
    layering.bestRows sweep.next rows rows crossings (patience - 1)
  else
    match idle with
    | 0 => best
    | idle + 1 => layering.bestRows sweep.next rows best least idle
termination_by (least, idle)

/-- The rows of the layering, with few crossings. -/
def rows (layering : Layering) : List (List Nat) :=
  let rows := layering.initialRows
  layering.bestRows .down rows rows (layering.crossings rows) (patience - 1)

end Layering

end Flowchart.Layered
