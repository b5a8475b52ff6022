import Flowchart.Geometry
import Flowchart.Layered.Coordinates

/-!
# Ranked components

A component lists its items rank by rank, each with the center that it would
like to have within its rank.  Components come from the coordinates of an
engine, provided that these place every connected item; otherwise the longest
paths decide.  Items without arcs are components of their own.
-/

namespace Flowchart

/-- Least distances between boxes. -/
structure Spacing (α : Type) where
  /-- Between neighbors in a rank. -/
  node : α
  /-- Between ranks. -/
  rank : α
  deriving DecidableEq, Repr

namespace Layered

/-- The items of a rank with the centers that they would like to have. -/
abbrev Rank (α : Type) :=
  List (Nat × α)

/-- The ranks of a component, from the first to the last. -/
abbrev Component (α : Type) :=
  List (Rank α)

variable {α β : Type} [Scalar α] [Scalar β]

/-! ### Ranks from coordinates -/

/-- Coordinates that differ by no more than this belong to one rank. -/
def rankTolerance : β :=
  Scalar.ofNat 1 / Scalar.ofNat 1000000

/-- The distance of two coordinates. -/
def distance (x y : β) : β :=
  if Scalar.less x y then y - x else x - y

/-- Orders by y, then by x, then by vertex. -/
def Located.precedes (first second : Located β) : Bool :=
  ((Scalar.order first.y second.y).then
    ((Scalar.order first.x second.x).then
      (compare first.vertex second.vertex))).isLE

/-- The item belongs to the rank of the first one. -/
def isNear (first item : Located β) : Bool :=
  !Scalar.less rankTolerance (distance item.y first.y)

/-- Collects items into ranks.  A rank ends before the first item that lies
farther from its first item than the tolerance. -/
def gatherRanks (items : List (Located β)) : List (List (Located β)) :=
  match items with
  | [] => []
  | first :: others =>
    (first :: others.takeWhile (isNear first)) ::
      gatherRanks (others.dropWhile (isNear first))
termination_by items.length
decreasing_by
  exact Nat.lt_succ_of_le (List.dropWhile_sublist (isNear first)).length_le

/-- The number of the rank that holds the vertex. -/
def rankIndex? (ranks : List (List (Located β))) (v : Nat) : Option Nat :=
  ranks.findIdx? fun rank => rank.any (·.vertex == v)

/-- The number of arcs whose ranks pass the test. -/
def countArcs (ranks : List (List (Located β))) (arcs : List Arc)
    (test : Nat → Nat → Bool) : Nat :=
  arcs.countP fun arc =>
    match rankIndex? ranks arc.source, rankIndex? ranks arc.target with
    | some source, some target => test source target
    | _, _ => false

/-- Puts the last rank first if most arcs would otherwise lead backwards. -/
def orientRanks (ranks : List (List (Located β))) (arcs : List Arc) :
    List (List (Located β)) :=
  let forward := countArcs ranks arcs (· < ·)
  let backward := countArcs ranks arcs (fun source target => target < source)
  if forward < backward then ranks.reverse else ranks

/-- The ranks of placed items: items of almost equal y, ordered by x. -/
def ranksOfCoordinates (items : List (Located β)) (arcs : List Arc) :
    List (List (Located β)) :=
  orientRanks (gatherRanks (items.mergeSort Located.precedes)) arcs

/-- The component of placed items.  Centers are measured from the leftmost item
on, in the given unit. -/
def componentOfCoordinates (narrow : β → α) (unit : α)
    (items : List (Located β)) (arcs : List Arc) : Component α :=
  let ranks := ranksOfCoordinates items arcs
  let least := (Scalar.minimum? (ranks.flatten.map Located.x)).getD Scalar.zero
  ranks.map fun rank =>
    rank.map fun item => (item.vertex, narrow (item.x - least) * unit)

/-! ### Accepting coordinates -/

/-- Why coordinates cannot be used. -/
inductive CoordinateFault where
  | notFinite (item : Nat)
  | incomplete (placed expected : Nat)
  deriving DecidableEq, Repr

/-- Turns the vertices of an engine back into items.  What is no item and
what has been placed before is passed over. -/
def placedItems (connected : List Nat) (seen : List Nat) :
    List (Located β) → Except CoordinateFault (List (Located β) × List Nat)
  | [] => .ok ([], seen)
  | located :: others =>
    match connected[located.vertex]? with
    | none => placedItems connected seen others
    | some item =>
      if !(Scalar.isFinite located.x && Scalar.isFinite located.y) then
        .error (.notFinite item)
      else if seen.contains item then placedItems connected seen others
      else do
        let (items, seen) ← placedItems connected (item :: seen) others
        return ({ located with vertex := item } :: items, seen)

/-- Turns all parts that an engine has placed back into items; empty parts vanish. -/
def placedParts (connected : List Nat) (seen : List Nat) :
    List (List (Located β)) →
      Except CoordinateFault (List (List (Located β)) × List Nat)
  | [] => .ok ([], seen)
  | part :: others => do
    let (items, seen) ← placedItems connected seen part
    let (parts, seen) ← placedParts connected seen others
    return (if items.isEmpty then parts else items :: parts, seen)

/-- The components of the coordinates that an engine has delivered, if they
place every connected item. -/
def componentsOfCoordinates (narrow : β → α) (unit : α) (connected : List Nat)
    (arcs : List Arc) (located : List (List (Located β))) :
    Except CoordinateFault (List (Component α)) := do
  let (parts, seen) ← placedParts connected [] located
  if seen.length = connected.length then
    return parts.map fun items =>
      componentOfCoordinates narrow unit items arcs
  else throw (.incomplete seen.length connected.length)

/-! ### Components from an engine -/

/-- The size of an item. -/
def sizeAt (sizes : List (Size α)) (item : Nat) : Size α :=
  (sizes[item]?).getD Size.zero

/-- The mean of the widths and heights of the items. -/
def meanSize (sizes : List (Size α)) (items : List Nat) : α :=
  let means := items.map fun item =>
    Scalar.half ((sizeAt sizes item).width + (sizeAt sizes item).height)
  Scalar.sum means / Scalar.ofNat items.length

def widest (sizes : List (Size α)) (items : List Nat) : α :=
  Scalar.maximum (items.map fun item => (sizeAt sizes item).width)

/-- Arcs between the places of their ends among the connected items. -/
def compactArcs (connected : List Nat) (arcs : List Arc) : List Arc :=
  arcs.map fun arc =>
    ⟨connected.idxOf arc.source, connected.idxOf arc.target⟩

/-- The components of the connected items, as the engine sees them. -/
def engineComponents (engine : Engine α β) (connected : List Nat)
    (arcs : List Arc) (sizes : List (Size α)) (spacing : Spacing α) :
    Except CoordinateFault (List (Component α)) :=
  let relative := Scalar.clamp (Scalar.ofNat 2) (Scalar.ofNat 5)
    (meanSize sizes connected / Scalar.ofNat 50)
  let unit := (widest sizes connected + spacing.node) / relative
  componentsOfCoordinates engine.narrow unit connected arcs <|
    engine.locate connected.length (compactArcs connected arcs)
      (engine.widen relative)

/-! ### Longest paths -/

/-- Raises the level of every target to one more than that of its source. -/
def raiseLevels (arcs : List Arc) (levels : List (Nat × Nat)) :
    List (Nat × Nat) :=
  levels.map fun (item, level) =>
    let below := (arcs.filter (·.target == item)).filterMap fun arc =>
      levels.lookup arc.source
    (item, below.foldl (fun level source => max level (source + 1)) level)

/-- The ranks by longest paths; the items of a rank are spread evenly. -/
def longestPathComponent (connected : List Nat) (arcs : List Arc)
    (sizes : List (Size α)) (spacing : Spacing α) : Component α :=
  let levels := connected.foldl (fun levels _ => raiseLevels arcs levels)
    (connected.map fun item => (item, 0))
  let unit := widest sizes connected + spacing.node
  let depth := (levels.map Prod.snd).foldl max 0
  let ranks := (List.range (depth + 1)).map fun level =>
    (levels.filter fun entry => entry.2 == level).map Prod.fst
  (ranks.filter (!·.isEmpty)).map fun rank =>
    let center :=
      Scalar.half (Scalar.ofNat rank.length - Scalar.ofNat 1)
    rank.zipIdx.map fun (item, place) =>
      (item, (Scalar.ofNat place - center) * unit)

/-! ### All components -/

/-- The items with arcs, in ascending order. -/
def connectedItems (arcs : List Arc) : List Nat :=
  (endpoints arcs).mergeSort (· ≤ ·)

/-- The least item of a component. -/
def leastItem? (component : Component α) : Option Nat :=
  (component.flatten.map Prod.fst).min?

/-- The first component has the smaller least item. -/
def startsFirst (first second : Component α) : Bool :=
  match leastItem? first, leastItem? second with
  | some first, some second => first ≤ second
  | some _, none => true
  | none, some _ => false
  | none, none => true

/-- The components in a fixed order: the connected ones by their least items,
then every other item by itself. -/
def components (engine : Engine α β) (arcs : List Arc)
    (sizes : List (Size α)) (spacing : Spacing α) : List (Component α) :=
  let connected := connectedItems arcs
  let ranked :=
    if arcs.isEmpty then []
    else
      match engineComponents engine connected arcs sizes spacing with
      | .ok components => components
      | .error _ => [longestPathComponent connected arcs sizes spacing]
  let isolated := (List.range sizes.length).filter (!connected.contains ·)
  ranked.mergeSort startsFirst ++
    isolated.map fun item => [[(item, Scalar.zero)]]

end Layered

end Flowchart
