import Flowchart.Layered.Placement
import Flowchart.Proofs.ComponentCoverage
import Flowchart.Proofs.ExactScalars

/-!
# Placements hold their boxes

With exact scalars, a layered layout keeps every box within the rectangle that
it returns.  Boxes of one rank lie between the edges of the rank, ranks follow
each other downward, and components stand side by side; turning the axes round
or exchanging them moves no box out of the rectangle.
-/

namespace Flowchart

structure Size.IsNonneg (size : Size ℚ) : Prop where
  width : 0 ≤ size.width
  height : 0 ≤ size.height

theorem Size.IsNonneg.zero : (Size.zero : Size ℚ).IsNonneg :=
  ⟨Scalar.zero_rat.ge, Scalar.zero_rat.ge⟩

structure Spacing.IsNonneg (spacing : Spacing ℚ) : Prop where
  node : 0 ≤ spacing.node
  rank : 0 ≤ spacing.rank

/-- The box of the given size at the corner lies in the frame. -/
structure Point.Fits (corner : Point ℚ) (size frame : Size ℚ) : Prop where
  left : 0 ≤ corner.x
  top : 0 ≤ corner.y
  right : corner.x + size.width ≤ frame.width
  bottom : corner.y + size.height ≤ frame.height

/-- The boxes of the given sizes lie in the rectangle around all boxes. -/
def Placement.Frames (placement : Placement ℚ) (sizes : List (Size ℚ)) : Prop :=
  ∀ (i : ℕ) corner size, placement.positions[i]? = some corner →
    sizes[i]? = some size → Point.Fits corner size placement.size

namespace Layered

variable {sizes : List (Size ℚ)} {spacing : Spacing ℚ}

theorem sizeAt_nonneg (h : ∀ size ∈ sizes, size.IsNonneg) (item : ℕ) :
    (sizeAt sizes item).IsNonneg := by
  unfold sizeAt
  cases hsize : sizes[item]? with
  | none => exact .zero
  | some size => exact h size (List.mem_of_getElem? hsize)

/-! ### Ranks -/

theorem items_seatRank (sizes : List (Size ℚ)) (gap y : ℚ) (right? : Option ℚ)
    (rank : Rank ℚ) :
    (seatRank sizes gap y right? rank).map Seat.item = rank.map Prod.fst := by
  induction rank generalizing right? with
  | nil => rfl
  | cons entry others ih => exact congrArg (entry.1 :: ·) (ih _)

theorem y_of_mem_seatRank {gap y : ℚ} {right? : Option ℚ} {rank : Rank ℚ}
    {seat : Seat ℚ} (h : seat ∈ seatRank sizes gap y right? rank) :
    seat.y = y := by
  induction rank generalizing right? with
  | nil => exact absurd h (by simp [seatRank])
  | cons entry others ih =>
      rcases List.mem_cons.mp h with rfl | hmem
      · rfl
      · exact ih hmem

theorem height_le_rankHeight (sizes : List (Size ℚ)) {rank : Rank ℚ}
    {item : ℕ} (h : item ∈ rank.map Prod.fst) :
    (sizeAt sizes item).height ≤ rankHeight sizes rank := by
  obtain ⟨entry, hentry, rfl⟩ := List.mem_map.mp h
  exact Scalar.le_maximum (.inr (List.mem_map.mpr ⟨entry, hentry, rfl⟩))

/-- Items are centered in their rank. -/
theorem seatRank_between (sizes : List (Size ℚ)) {gap top : ℚ}
    {right? : Option ℚ} {rank : Rank ℚ} {seat : Seat ℚ}
    (h : seat ∈ seatRank sizes gap
      (top + Scalar.half (rankHeight sizes rank)) right? rank) :
    top ≤ seat.y - (sizeAt sizes seat.item).height / 2 ∧
      seat.y + (sizeAt sizes seat.item).height / 2 ≤
        top + rankHeight sizes rank := by
  have hitem : seat.item ∈ rank.map Prod.fst := by
    rw [← items_seatRank sizes]
    exact List.mem_map_of_mem h
  have htall := height_le_rankHeight sizes hitem
  have hy := y_of_mem_seatRank h
  rw [Scalar.half_rat] at hy
  constructor <;> linarith

theorem items_seatRanks (sizes : List (Size ℚ)) (spacing : Spacing ℚ)
    (top bottom : ℚ) (component : Component ℚ) :
    (seatRanks sizes spacing top bottom component).1.map Seat.item =
      component.items := by
  induction component generalizing top bottom with
  | nil => rfl
  | cons rank others ih =>
      simp only [seatRanks, List.map_append, items_seatRank, ih]
      simp [Component.items]

/-- The ranks lie between the height where they start and the lower edge that
they tell. -/
theorem seatRanks_between (sizes : List (Size ℚ))
    (hrank : 0 ≤ spacing.rank) {top bottom : ℚ} (htop : bottom ≤ top)
    (component : Component ℚ) :
    let placed := seatRanks sizes spacing top bottom component
    bottom ≤ placed.2 ∧ ∀ seat ∈ placed.1,
      top ≤ seat.y - (sizeAt sizes seat.item).height / 2 ∧
        seat.y + (sizeAt sizes seat.item).height / 2 ≤ placed.2 := by
  induction component generalizing top bottom with
  | nil => exact ⟨le_rfl, fun _ hseat => absurd hseat (by simp [seatRanks])⟩
  | cons rank others ih =>
      have hheight : 0 ≤ rankHeight sizes rank := Scalar.maximum_nonneg _
      -- The other ranks start below this one, by the spacing.
      have hbelow : top + rankHeight sizes rank ≤
          top + rankHeight sizes rank + spacing.rank := by linarith
      obtain ⟨hlast, hothers⟩ := ih hbelow
      refine ⟨?_, ?_⟩
      · simp only [seatRanks]
        linarith
      · intro seat hseat
        rcases List.mem_append.mp hseat with hfirst | hmore
        · obtain ⟨hupper, hlower⟩ := seatRank_between sizes hfirst
          simp only [seatRanks]
          exact ⟨hupper, hlower.trans hlast⟩
        · have hseat := hothers seat hmore
          simp only [seatRanks]
          exact ⟨by linarith [hseat.1], hseat.2⟩

/-! ### Components -/

/-- What placing a component does: its seats are moved such that the leftmost
edge is at the offset. -/
theorem placeComponent_cases (sizes : List (Size ℚ)) (spacing : Spacing ℚ)
    (offset : ℚ) (component : Component ℚ) :
    let placed := seatRanks sizes spacing Scalar.zero Scalar.zero component
    (placed.1 = [] ∧ placeComponent sizes spacing offset component =
        ([], Size.zero)) ∨
      ∃ left right,
        Scalar.minimum? (placed.1.map (leftEdge sizes)) = some left ∧
        Scalar.maximum? (placed.1.map (rightEdge sizes)) = some right ∧
        placeComponent sizes spacing offset component =
          (placed.1.map (corner sizes left offset),
            ⟨right - left, placed.2⟩) := by
  unfold placeComponent
  generalize seatRanks sizes spacing Scalar.zero Scalar.zero component = placed
  obtain ⟨seats, bottom⟩ := placed
  cases seats with
  | nil => exact .inl ⟨rfl, rfl⟩
  | cons first others => exact .inr ⟨_, _, rfl, rfl, rfl⟩

/-- A component lies between the offset and its own width behind it. -/
theorem placeComponent_between (hsizes : ∀ size ∈ sizes, size.IsNonneg)
    (hrank : 0 ≤ spacing.rank) (offset : ℚ) (component : Component ℚ) :
    let placed := placeComponent sizes spacing offset component
    placed.1.map Prod.fst = component.items ∧ placed.2.IsNonneg ∧
      ∀ item corner, (item, corner) ∈ placed.1 →
        offset ≤ corner.x ∧ 0 ≤ corner.y ∧
          corner.x + (sizeAt sizes item).width ≤ offset + placed.2.width ∧
          corner.y + (sizeAt sizes item).height ≤ placed.2.height := by
  have hitems := items_seatRanks sizes spacing Scalar.zero Scalar.zero component
  obtain ⟨hbottom, hbetween⟩ :=
    seatRanks_between sizes hrank (le_refl Scalar.zero) component
  have hcases := placeComponent_cases sizes spacing offset component
  generalize seatRanks sizes spacing Scalar.zero Scalar.zero component = placed
    at hitems hbottom hbetween hcases
  obtain ⟨seats, bottom⟩ := placed
  dsimp only at hitems hbottom hbetween hcases
  rw [Scalar.zero_rat] at hbottom hbetween
  rcases hcases with ⟨rfl, hplaced⟩ | ⟨left, right, hleft, hright, hplaced⟩
  · rw [hplaced]
    exact ⟨hitems, .zero, fun _ _ hcorner => nomatch hcorner⟩
  · have hedges : ∀ seat ∈ seats,
        left ≤ leftEdge sizes seat ∧ rightEdge sizes seat ≤ right :=
      fun seat hseat =>
        ⟨Scalar.le_of_minimum? hleft (List.mem_map_of_mem hseat),
          Scalar.le_of_maximum? hright (List.mem_map_of_mem hseat)⟩
    simp only [leftEdge, rightEdge, Scalar.half_rat] at hedges
    rw [hplaced]
    simp only [List.map_map]
    refine ⟨hitems, ⟨?_, hbottom⟩, ?_⟩
    · obtain ⟨first, hfirst, -⟩ :=
        List.mem_map.mp (Scalar.mem_of_minimum? hleft)
      obtain ⟨hfirst, hlast⟩ := hedges first hfirst
      have hwidth := (sizeAt_nonneg hsizes first.item).width
      dsimp only
      linarith
    · intro item corner hcorner
      obtain ⟨seat, hseat, heq⟩ := List.mem_map.mp hcorner
      obtain ⟨rfl, rfl⟩ := Prod.mk.inj heq
      obtain ⟨htop, hlow⟩ := hbetween seat hseat
      obtain ⟨hfirst, hlast⟩ := hedges seat hseat
      simp only [leftEdge, Scalar.half_rat]
      refine ⟨?_, ?_, ?_, ?_⟩ <;> linarith

/-- Components stand side by side, the first of them behind the width so far. -/
theorem placeComponents_between (hsizes : ∀ size ∈ sizes, size.IsNonneg)
    (hspacing : spacing.IsNonneg) {offset : ℚ} {size : Size ℚ}
    (hoffset : 0 ≤ offset) (hsize : size.width ≤ offset)
    (components : List (Component ℚ)) :
    let placed := placeComponents sizes spacing offset size components
    placed.1.map Prod.fst = components.flatMap Component.items ∧
      size.width ≤ placed.2.width ∧ size.height ≤ placed.2.height ∧
      ∀ item corner, (item, corner) ∈ placed.1 →
        Point.Fits corner (sizeAt sizes item) placed.2 := by
  induction components generalizing offset size with
  | nil => exact ⟨rfl, le_rfl, le_rfl, fun _ _ hcorner => nomatch hcorner⟩
  | cons component others ih =>
      obtain ⟨hitems, hown, hcorners⟩ :=
        placeComponent_between hsizes hspacing.rank offset component
      rw [placeComponents]
      generalize placeComponent sizes spacing offset component = placed
        at hitems hown hcorners
      obtain ⟨corners, own⟩ := placed
      dsimp only at hitems hown hcorners ⊢
      rw [Scalar.larger_rat]
      have hnode := hspacing.node
      have hwidth := hown.width
      -- What is placed so far, this component included.
      let here : Size ℚ := ⟨offset + own.width, max size.height own.height⟩
      have hstart : 0 ≤ offset + own.width + spacing.node := by linarith
      have hbehind : here.width ≤ offset + own.width + spacing.node := by
        dsimp only [here]
        linarith
      obtain ⟨hmoreItems, hwide, htall, hmore⟩ := ih hstart hbehind
      have hheight := (le_max_left size.height own.height).trans htall
      have hownHeight := (le_max_right size.height own.height).trans htall
      refine ⟨?_, ?_, hheight, ?_⟩
      · rw [List.map_append, hitems, hmoreItems, List.flatMap_cons]
      · exact le_trans (by linarith) hwide
      · intro item corner hcorner
        rcases List.mem_append.mp hcorner with hfirst | hlast
        · obtain ⟨hleft, htop, hright, hbottom⟩ := hcorners item corner hfirst
          exact ⟨hoffset.trans hleft, htop, hright.trans hwide,
            hbottom.trans hownHeight⟩
        · exact hmore item corner hlast

theorem placeDownward_frames (hsizes : ∀ size ∈ sizes, size.IsNonneg)
    (hspacing : spacing.IsNonneg) {components : List (Component ℚ)}
    (hcovered : ∀ item < sizes.length,
      ∃ component ∈ components, item ∈ component.items) :
    (placeDownward sizes spacing components).Frames sizes := by
  obtain ⟨hitems, -, -, hcorners⟩ := placeComponents_between hsizes hspacing
    (le_refl Scalar.zero) (le_refl (Size.zero : Size ℚ).width) components
  intro item corner size hcorner hsize
  have hitem := (List.getElem?_eq_some_iff.mp hsize).1
  have hplaced : item ∈ (placeComponents sizes spacing Scalar.zero Size.zero
      components).1.map Prod.fst := by
    rw [hitems]
    exact List.mem_flatMap.mpr (hcovered item hitem)
  have hsizeAt : sizeAt sizes item = size := by
    rw [sizeAt, hsize, Option.getD_some]
  simp only [placeDownward, List.getElem?_map,
    List.getElem?_range hitem, Option.map_some, Option.some.injEq] at hcorner
  rw [placeDownward]
  generalize placeComponents sizes spacing Scalar.zero Size.zero components =
    placed at hplaced hcorners hcorner ⊢
  obtain ⟨corners, frame⟩ := placed
  dsimp only at hplaced hcorners hcorner ⊢
  cases hlookup : corners.lookup item with
  | none =>
      obtain ⟨entry, hentry, rfl⟩ := List.mem_map.mp hplaced
      have hne := List.lookup_eq_none_iff.mp hlookup entry hentry
      exact absurd hne (by simp)
  | some found =>
      obtain ⟨before, after, rfl, -⟩ := List.lookup_eq_some_iff.mp hlookup
      rw [hlookup, Option.getD_some] at hcorner
      rw [← hcorner, ← hsizeAt]
      exact hcorners item found (List.mem_append_right _ List.mem_cons_self)

/-! ### Directions -/

theorem flipRanks_frames {placement : Placement ℚ}
    (h : placement.Frames sizes) : (flipRanks sizes placement).Frames sizes := by
  intro item corner size hcorner hsize
  obtain ⟨position, other, hposition, hother, rfl⟩ :=
    List.getElem?_zipWith_eq_some.mp hcorner
  obtain rfl := Option.some.inj (hother.symm.trans hsize)
  obtain ⟨hleft, htop, hright, hbottom⟩ := h item position other hposition hsize
  refine ⟨hleft, ?_, hright, ?_⟩
  · dsimp only
    linarith
  · dsimp only [flipRanks]
    linarith

end Layered

theorem Placement.Frames.transpose {placement : Placement ℚ}
    {sizes : List (Size ℚ)} (h : placement.Frames sizes) :
    placement.transpose.Frames (sizes.map Size.transpose) := by
  intro item corner size hcorner hsize
  rw [Placement.transpose, List.getElem?_map] at hcorner
  rw [List.getElem?_map] at hsize
  obtain ⟨position, hposition, rfl⟩ := Option.map_eq_some_iff.mp hcorner
  obtain ⟨other, hother, rfl⟩ := Option.map_eq_some_iff.mp hsize
  obtain ⟨hleft, htop, hright, hbottom⟩ := h item position other hposition hother
  exact ⟨htop, hleft, hbottom, hright⟩

namespace LayeredGraph

open Layered

variable {β : Type} [Scalar β] {sizes : List (Size ℚ)} {spacing : Spacing ℚ}

/-- The sizes with which boxes are placed from top to bottom: in a horizontal
direction, they lie on their sides. -/
def turned (direction : Direction) (sizes : List (Size ℚ)) : List (Size ℚ) :=
  if direction.isHorizontal then sizes.map Size.transpose else sizes

theorem length_turned (direction : Direction) (sizes : List (Size ℚ)) :
    (turned direction sizes).length = sizes.length := by
  unfold turned
  split
  · exact List.length_map _
  · rfl

theorem turned_turned (direction : Direction) (sizes : List (Size ℚ)) :
    turned direction (turned direction sizes) = sizes := by
  unfold turned
  split
  · rw [List.map_map]
    exact List.map_id _
  · rfl

theorem turned_nonneg (direction : Direction)
    (h : ∀ size ∈ sizes, size.IsNonneg) :
    ∀ size ∈ turned direction sizes, size.IsNonneg := by
  unfold turned
  split
  · intro size hsize
    obtain ⟨other, hother, rfl⟩ := List.mem_map.mp hsize
    exact ⟨(h other hother).height, (h other hother).width⟩
  · exact h

theorem place_frames (direction : Direction)
    (hsizes : ∀ size ∈ sizes, size.IsNonneg) (hspacing : spacing.IsNonneg)
    {components : List (Component ℚ)}
    (hcovered : ∀ item < sizes.length,
      ∃ component ∈ components, item ∈ component.items) :
    (place direction sizes spacing components).Frames
      (turned direction sizes) := by
  have hdownward := placeDownward_frames hsizes hspacing hcovered
  cases direction with
  | topBottom => exact hdownward
  | bottomTop => exact flipRanks_frames hdownward
  | leftRight => exact hdownward.transpose
  | rightLeft => exact (flipRanks_frames hdownward).transpose

/-- A layout over exact scalars cannot fail. -/
theorem layout_rat (engine : Engine ℚ β) (graph : LayeredGraph ℚ)
    (direction : Direction) (spacing : Spacing ℚ) (hsome : graph.sizes ≠ []) :
    let sizes := turned direction graph.sizes
    graph.layout engine direction spacing = .ok (place direction sizes spacing
      (components engine graph.orientedArcs sizes spacing)) := by
  intro sizes
  have hfinite : (place direction sizes spacing
      (components engine graph.orientedArcs sizes spacing)).isFinite := by
    simp [Placement.isFinite, Point.isFinite, Size.isFinite]
  unfold layout
  rw [if_neg (mt List.isEmpty_iff.mp hsome)]
  exact if_pos hfinite

/-- The rectangle of a layout holds all boxes, whatever the engine answers. -/
theorem exists_layout_frames (engine : Engine ℚ β) (graph : LayeredGraph ℚ)
    (direction : Direction) (hsizes : ∀ size ∈ graph.sizes, size.IsNonneg)
    (hspacing : spacing.IsNonneg) :
    ∃ placement, graph.layout engine direction spacing = .ok placement ∧
      placement.Frames graph.sizes := by
  by_cases hempty : graph.sizes = []
  · refine ⟨⟨[], Size.zero⟩, ?_, fun item corner size hcorner => ?_⟩
    · rw [layout, hempty]
      rfl
    · exact absurd hcorner (by simp)
  · have hframes := place_frames direction (turned_nonneg direction hsizes)
      hspacing fun item hitem =>
        exists_component_of_lt engine graph.orientedArcs spacing hitem
    rw [turned_turned] at hframes
    exact ⟨_, layout_rat engine graph direction spacing hempty, hframes⟩

end LayeredGraph

end Flowchart
