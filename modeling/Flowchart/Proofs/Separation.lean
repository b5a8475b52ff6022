import Flowchart.Proofs.ComponentOrder
import Flowchart.Proofs.Keyed
import Flowchart.Proofs.Placements

/-!
# Boxes keep their distance

With exact scalars, two boxes of a layered layout are never closer than the
spacing allows: boxes of one rank and boxes of different components keep the
distance of neighbors, boxes in different ranks that of ranks.  The rectangle
around all boxes is tight, since each of its sides is touched by a box.  This
holds for whatever ranks and centers the boxes are given.
-/

namespace Flowchart

/-! ### Boxes that are apart -/

namespace Bounds

/-- The first box ends to the left of the second one, or above it, and the gap
fits in between. -/
def Precedes (gap : Size ℚ) (first second : Bounds ℚ) : Prop :=
  first.maxX + gap.width ≤ second.minX ∨
    first.maxY + gap.height ≤ second.minY

/-- The gap fits between the boxes, on one axis or on the other. -/
def Clears (gap : Size ℚ) (first second : Bounds ℚ) : Prop :=
  Precedes gap first second ∨ Precedes gap second first

/-- Each side of the frame is touched by one of the boxes. -/
structure Touches (frame : Bounds ℚ) (boxes : List (Bounds ℚ)) : Prop where
  left : ∃ box ∈ boxes, box.minX = frame.minX
  top : ∃ box ∈ boxes, box.minY = frame.minY
  right : ∃ box ∈ boxes, box.maxX = frame.maxX
  bottom : ∃ box ∈ boxes, box.maxY = frame.maxY

/-- The box upside down in a frame of the given height. -/
def flip (height : ℚ) (box : Bounds ℚ) : Bounds ℚ :=
  ⟨box.minX, height - box.maxY, box.maxX, height - box.minY⟩

/-- Exchanges the axes. -/
def transpose (box : Bounds ℚ) : Bounds ℚ :=
  ⟨box.minY, box.minX, box.maxY, box.maxX⟩

variable {gap : Size ℚ} {first second frame : Bounds ℚ}
  {boxes : List (Bounds ℚ)}

theorem Clears.symm (h : Clears gap first second) : Clears gap second first :=
  Or.symm h

theorem Clears.intersects_eq_false (h : Clears gap first second)
    (hgap : gap.IsNonneg) : first.intersects second = false := by
  obtain ⟨hwidth, hheight⟩ := hgap
  rw [← Bool.not_eq_true, intersects]
  simp only [Bool.and_eq_true, Scalar.less_rat]
  rintro ⟨⟨⟨hleft, hright⟩, htop⟩, hbottom⟩
  rcases h with (hx | hy) | (hx | hy) <;> linarith

theorem Clears.flip (h : Clears gap first second) (height : ℚ) :
    Clears gap (first.flip height) (second.flip height) := by
  rcases h with (hx | hy) | (hx | hy)
  · exact .inl (.inl hx)
  · refine .inr (.inr ?_)
    dsimp only [Bounds.flip]
    linarith
  · exact .inr (.inl hx)
  · refine .inl (.inr ?_)
    dsimp only [Bounds.flip]
    linarith

theorem Clears.transpose (h : Clears gap first second) :
    Clears gap.transpose first.transpose second.transpose := by
  rcases h with (hx | hy) | (hx | hy)
  · exact .inl (.inr hx)
  · exact .inl (.inl hy)
  · exact .inr (.inr hx)
  · exact .inr (.inl hy)

theorem Touches.of_perm (h : frame.Touches boxes) {others : List (Bounds ℚ)}
    (hperm : boxes.Perm others) : frame.Touches others := by
  have hmem : ∀ {side : Bounds ℚ → ℚ} {edge : ℚ},
      (∃ box ∈ boxes, side box = edge) → ∃ box ∈ others, side box = edge :=
    fun ⟨box, hbox, hedge⟩ => ⟨box, hperm.subset hbox, hedge⟩
  exact ⟨hmem h.left, hmem h.top, hmem h.right, hmem h.bottom⟩

theorem Touches.flip {width height : ℚ}
    (h : Touches ⟨0, 0, width, height⟩ boxes) :
    Touches ⟨0, 0, width, height⟩ (boxes.map (Bounds.flip height)) := by
  obtain ⟨⟨left, hleft, hx⟩, ⟨top, htop, hy⟩, ⟨right, hright, hwidth⟩,
    ⟨bottom, hbottom, hheight⟩⟩ := h
  refine ⟨⟨_, List.mem_map_of_mem hleft, hx⟩,
    ⟨_, List.mem_map_of_mem hbottom, ?_⟩,
    ⟨_, List.mem_map_of_mem hright, hwidth⟩,
    ⟨_, List.mem_map_of_mem htop, ?_⟩⟩
  · dsimp only [Bounds.flip] at hheight ⊢
    linarith
  · dsimp only [Bounds.flip] at hy ⊢
    linarith

theorem Touches.transpose {width height : ℚ}
    (h : Touches ⟨0, 0, width, height⟩ boxes) :
    Touches ⟨0, 0, height, width⟩ (boxes.map Bounds.transpose) := by
  obtain ⟨⟨left, hleft, hx⟩, ⟨top, htop, hy⟩, ⟨right, hright, hwidth⟩,
    ⟨bottom, hbottom, hheight⟩⟩ := h
  exact ⟨⟨_, List.mem_map_of_mem htop, hy⟩, ⟨_, List.mem_map_of_mem hleft, hx⟩,
    ⟨_, List.mem_map_of_mem hbottom, hheight⟩,
    ⟨_, List.mem_map_of_mem hright, hwidth⟩⟩

end Bounds

namespace Layered

variable {sizes : List (Size ℚ)} {spacing : Spacing ℚ}

/-- The distances of boxes that are placed from top to bottom. -/
def gap (spacing : Spacing ℚ) : Size ℚ :=
  ⟨spacing.node, spacing.rank⟩

/-! ### Ranks -/

def seatBounds (sizes : List (Size ℚ)) (seat : Seat ℚ) : Bounds ℚ where
  minX := leftEdge sizes seat
  minY := seat.y - (sizeAt sizes seat.item).height / 2
  maxX := rightEdge sizes seat
  maxY := seat.y + (sizeAt sizes seat.item).height / 2

/-- What seating an item does: its left edge comes behind the right edge so far,
and its own right edge counts for the next one. -/
theorem seatRank_cons (sizes : List (Size ℚ)) (distance y : ℚ)
    (right? : Option ℚ) (item : ℕ) (desired : ℚ) (others : Rank ℚ) :
    ∃ seat : Seat ℚ,
      (∀ right ∈ right?, right + distance ≤ leftEdge sizes seat) ∧
      leftEdge sizes seat + (sizeAt sizes item).width = rightEdge sizes seat ∧
      seatRank sizes distance y right? ((item, desired) :: others) =
        seat :: seatRank sizes distance y (some (rightEdge sizes seat))
          others := by
  refine ⟨⟨item, _, y⟩, ?_, ?_, rfl⟩
  · rintro right rfl
    have hx := le_max_right desired
      (right + distance + Scalar.half (sizeAt sizes item).width)
    simp only [leftEdge, Scalar.larger_rat]
    linarith
  · simp only [leftEdge, rightEdge, Scalar.half_rat]
    linarith

/-- Every item of a rank stays clear of all items to its left. -/
theorem seatRank_pairwise (hsizes : ∀ size ∈ sizes, size.IsNonneg)
    {distance : ℚ} (hdistance : 0 ≤ distance) (y : ℚ) (right? : Option ℚ)
    (rank : Rank ℚ) :
    (∀ right ∈ right?, ∀ seat ∈ seatRank sizes distance y right? rank,
        right + distance ≤ leftEdge sizes seat) ∧
      (seatRank sizes distance y right? rank).Pairwise fun seat other =>
        rightEdge sizes seat + distance ≤ leftEdge sizes other := by
  induction rank generalizing right? with
  | nil => exact ⟨fun _ _ _ hseat => (nomatch hseat), List.Pairwise.nil⟩
  | cons entry others ih =>
      obtain ⟨item, desired⟩ := entry
      obtain ⟨first, hfirst, hedges, hseats⟩ :=
        seatRank_cons sizes distance y right? item desired others
      have hwidth := (sizeAt_nonneg hsizes item).width
      obtain ⟨hbehind, hothers⟩ := ih (some (rightEdge sizes first))
      have hclear := hbehind (rightEdge sizes first) rfl
      rw [hseats]
      refine ⟨?_, List.pairwise_cons.mpr ⟨hclear, hothers⟩⟩
      intro right hright seat hseat
      have hleft := hfirst right hright
      rcases List.mem_cons.mp hseat with rfl | hmem
      · exact hleft
      · have hlast := hclear seat hmem
        linarith

/-- An item stays clear of those in its rank to the left, and of those in the
ranks above. -/
theorem seatRanks_pairwise (hsizes : ∀ size ∈ sizes, size.IsNonneg)
    (hspacing : spacing.IsNonneg) {top bottom : ℚ} (htop : bottom ≤ top)
    (component : Component ℚ) :
    (seatRanks sizes spacing top bottom component).1.Pairwise fun seat other =>
      Bounds.Precedes (gap spacing) (seatBounds sizes seat)
        (seatBounds sizes other) := by
  induction component generalizing top bottom with
  | nil => exact List.Pairwise.nil
  | cons rank others ih =>
      have hrank := hspacing.rank
      have hheight : 0 ≤ rankHeight sizes rank := Scalar.maximum_nonneg _
      have hbelow : top + rankHeight sizes rank ≤
          top + rankHeight sizes rank + spacing.rank := by linarith
      obtain ⟨-, hothers⟩ := seatRanks_between sizes hrank hbelow others
      simp only [seatRanks]
      refine List.pairwise_append.mpr ⟨?_, ih hbelow, ?_⟩
      · exact (seatRank_pairwise hsizes hspacing.node _ none rank).2.imp .inl
      · intro seat hseat other hother
        obtain ⟨-, hlower⟩ := seatRank_between sizes hseat
        have hupper := (hothers other hother).1
        refine .inr ?_
        dsimp only [seatBounds, gap]
        linarith

theorem exists_tallest_seat (hsizes : ∀ size ∈ sizes, size.IsNonneg)
    (distance y : ℚ) (right? : Option ℚ) {rank : Rank ℚ} (hrank : rank ≠ []) :
    ∃ seat ∈ seatRank sizes distance y right? rank,
      seat.y = y ∧ (sizeAt sizes seat.item).height = rankHeight sizes rank := by
  have htallest : rankHeight sizes rank ∈ rank.map fun (item, _) =>
      (sizeAt sizes item).height := by
    apply Scalar.maximum_mem
    · simpa using hrank
    · intro height hheight
      obtain ⟨entry, -, rfl⟩ := List.mem_map.mp hheight
      exact (sizeAt_nonneg hsizes entry.1).height
  obtain ⟨entry, hentry, hheight⟩ := List.mem_map.mp htallest
  have hitem := List.mem_map_of_mem (f := Prod.fst) hentry
  rw [← items_seatRank sizes distance y right?] at hitem
  obtain ⟨seat, hseat, heq⟩ := List.mem_map.mp hitem
  exact ⟨seat, hseat, y_of_mem_seatRank hseat, heq ▸ hheight⟩

/-- The tallest items of the first and of the last rank touch the edges. -/
theorem seatRanks_touch (hsizes : ∀ size ∈ sizes, size.IsNonneg)
    (spacing : Spacing ℚ) (top bottom : ℚ) {component : Component ℚ} (hsome : component ≠ [])
    (hranks : ∀ rank ∈ component, rank ≠ []) :
    let placed := seatRanks sizes spacing top bottom component
    (∃ seat ∈ placed.1, (seatBounds sizes seat).minY = top) ∧
      ∃ seat ∈ placed.1, (seatBounds sizes seat).maxY = placed.2 := by
  induction component generalizing top bottom with
  | nil => exact absurd rfl hsome
  | cons rank others ih =>
      obtain ⟨seat, hseat, hy, hheight⟩ := exists_tallest_seat hsizes
        spacing.node (top + Scalar.half (rankHeight sizes rank)) none
        (hranks rank List.mem_cons_self)
      rw [Scalar.half_rat] at hy
      simp only [seatRanks]
      refine ⟨⟨seat, List.mem_append_left _ hseat, ?_⟩, ?_⟩
      · rw [seatBounds, hy, hheight]
        exact add_sub_cancel_right _ _
      · by_cases hlast : others = []
        · subst hlast
          refine ⟨seat, List.mem_append_left _ hseat, ?_⟩
          simp only [seatBounds, hy, hheight, seatRanks]
          linarith
        · obtain ⟨-, low, hlow, hedge⟩ := ih _ _ hlast
            fun rank hrank => hranks rank (List.mem_cons_of_mem _ hrank)
          exact ⟨low, List.mem_append_right _ hlow, hedge⟩

/-! ### Components -/

/-- The box at a corner. -/
def cornerBounds (sizes : List (Size ℚ)) (entry : ℕ × Point ℚ) : Bounds ℚ :=
  Bounds.ofTopLeft entry.2 (sizeAt sizes entry.1)

/-- The box of a seat is only moved to the right. -/
theorem cornerBounds_corner (sizes : List (Size ℚ)) (left offset : ℚ)
    (seat : Seat ℚ) :
    let box := seatBounds sizes seat
    cornerBounds sizes (corner sizes left offset seat) =
      ⟨box.minX - left + offset, box.minY, box.maxX - left + offset,
        box.maxY⟩ := by
  simp only [cornerBounds, corner, Bounds.ofTopLeft, seatBounds, leftEdge,
    rightEdge, Scalar.half_rat, Bounds.mk.injEq, true_and]
  constructor <;> linarith

theorem placeComponent_pairwise (hsizes : ∀ size ∈ sizes, size.IsNonneg)
    (hspacing : spacing.IsNonneg) (offset : ℚ) (component : Component ℚ) :
    ((placeComponent sizes spacing offset component).1.map
      (cornerBounds sizes)).Pairwise (Bounds.Precedes (gap spacing)) := by
  have hseats := seatRanks_pairwise hsizes hspacing (le_refl Scalar.zero)
    component
  rcases placeComponent_cases sizes spacing offset component with
    ⟨-, hplaced⟩ | ⟨left, right, -, -, hplaced⟩
  · rw [hplaced]
    exact List.Pairwise.nil
  · rw [hplaced, List.map_map, List.pairwise_map]
    refine hseats.imp fun {seat other} happart => ?_
    rw [Function.comp_apply, Function.comp_apply, cornerBounds_corner,
      cornerBounds_corner]
    rcases happart with hx | hy
    · refine .inl ?_
      dsimp only
      linarith
    · exact .inr hy

/-- A component reaches from the offset to its own width behind it, and from
the top to its own height. -/
theorem placeComponent_touches (hsizes : ∀ size ∈ sizes, size.IsNonneg)
    (spacing : Spacing ℚ) (offset : ℚ) {component : Component ℚ} (hsome : component ≠ [])
    (hranks : ∀ rank ∈ component, rank ≠ []) :
    let placed := placeComponent sizes spacing offset component
    Bounds.Touches ⟨offset, 0, offset + placed.2.width, placed.2.height⟩
      (placed.1.map (cornerBounds sizes)) := by
  obtain ⟨⟨high, hhigh, htop⟩, low, hlow, hbottom⟩ :=
    seatRanks_touch hsizes spacing Scalar.zero Scalar.zero hsome hranks
  rw [Scalar.zero_rat] at htop
  have hcases := placeComponent_cases sizes spacing offset component
  generalize seatRanks sizes spacing Scalar.zero Scalar.zero component = placed
    at hhigh hlow hbottom hcases
  obtain ⟨seats, bottom⟩ := placed
  dsimp only at hhigh hlow hbottom hcases
  rcases hcases with ⟨rfl, -⟩ | ⟨left, right, hleft, hright, hplaced⟩
  · exact nomatch hhigh
  · obtain ⟨first, hfirst, rfl⟩ := List.mem_map.mp (Scalar.mem_of_minimum? hleft)
    obtain ⟨last, hlast, rfl⟩ := List.mem_map.mp (Scalar.mem_of_maximum? hright)
    have hbox : ∀ seat ∈ seats,
        cornerBounds sizes (corner sizes (leftEdge sizes first) offset seat) ∈
          (seats.map (corner sizes (leftEdge sizes first) offset)).map
            (cornerBounds sizes) :=
      fun _ hseat => List.mem_map_of_mem (List.mem_map_of_mem hseat)
    rw [hplaced]
    refine ⟨⟨_, hbox first hfirst, ?_⟩, ⟨_, hbox high hhigh, ?_⟩,
      ⟨_, hbox last hlast, ?_⟩, ⟨_, hbox low hlow, ?_⟩⟩
    all_goals rw [cornerBounds_corner]
    · dsimp only [seatBounds]
      linarith
    · exact htop
    · dsimp only [seatBounds]
      linarith
    · exact hbottom

/-- Every component stays clear of those to its left. -/
theorem placeComponents_pairwise (hsizes : ∀ size ∈ sizes, size.IsNonneg)
    (hspacing : spacing.IsNonneg) (offset : ℚ) (size : Size ℚ)
    (components : List (Component ℚ)) :
    let boxes := (placeComponents sizes spacing offset size components).1.map
      (cornerBounds sizes)
    (∀ box ∈ boxes, offset ≤ box.minX) ∧
      boxes.Pairwise (Bounds.Precedes (gap spacing)) := by
  induction components generalizing offset size with
  | nil => exact ⟨fun _ hbox => (nomatch hbox), List.Pairwise.nil⟩
  | cons component others ih =>
      have hwithin := placeComponent_pairwise hsizes hspacing offset component
      obtain ⟨-, hown, hcorners⟩ :=
        placeComponent_between hsizes hspacing.rank offset component
      rw [placeComponents]
      generalize placeComponent sizes spacing offset component = placed
        at hwithin hown hcorners
      obtain ⟨corners, own⟩ := placed
      dsimp only at hwithin hown hcorners ⊢
      have hbetween : ∀ box ∈ corners.map (cornerBounds sizes),
          offset ≤ box.minX ∧ box.maxX ≤ offset + own.width := by
        intro box hbox
        obtain ⟨⟨item, corner⟩, hcorner, rfl⟩ := List.mem_map.mp hbox
        obtain ⟨hleft, -, hright, -⟩ := hcorners item corner hcorner
        exact ⟨hleft, hright⟩
      obtain ⟨hbehind, hothers⟩ := ih (offset + own.width + spacing.node)
        ⟨offset + own.width, Scalar.larger size.height own.height⟩
      rw [List.map_append]
      refine ⟨?_, List.pairwise_append.mpr ⟨hwithin, hothers, ?_⟩⟩
      · intro box hbox
        rcases List.mem_append.mp hbox with hfirst | hmore
        · exact (hbetween box hfirst).1
        · have hwidth := hown.width
          have hnode := hspacing.node
          linarith [hbehind box hmore]
      · intro box hbox other hother
        have hright := (hbetween box hbox).2
        have hleft := hbehind other hother
        refine .inl ?_
        dsimp only [gap]
        linarith

/-- The lower right corner tells how far the boxes reach, beyond what is taken
up before. -/
theorem placeComponents_reach (hsizes : ∀ size ∈ sizes, size.IsNonneg)
    (spacing : Spacing ℚ) (offset : ℚ) (size : Size ℚ) {components : List (Component ℚ)}
    (hsome : ∀ component ∈ components, component ≠ [])
    (hranks : ∀ component ∈ components, ∀ rank ∈ component, rank ≠ []) :
    let placed := placeComponents sizes spacing offset size components
    let boxes := placed.1.map (cornerBounds sizes)
    (placed.2.width = size.width ∨ ∃ box ∈ boxes, box.maxX = placed.2.width) ∧
      (placed.2.height = size.height ∨
        ∃ box ∈ boxes, box.maxY = placed.2.height) := by
  induction components generalizing offset size with
  | nil => exact ⟨.inl rfl, .inl rfl⟩
  | cons component others ih =>
      obtain ⟨-, -, ⟨last, hlast, hright⟩, ⟨low, hlow, hbottom⟩⟩ :=
        placeComponent_touches hsizes spacing offset
          (hsome component List.mem_cons_self)
          (hranks component List.mem_cons_self)
      rw [placeComponents]
      generalize placeComponent sizes spacing offset component = placed
        at hlast hright hlow hbottom
      obtain ⟨corners, own⟩ := placed
      dsimp only at hlast hright hlow hbottom ⊢
      obtain ⟨hwidth, hheight⟩ := ih (offset + own.width + spacing.node)
        ⟨offset + own.width, Scalar.larger size.height own.height⟩
        (fun other hother => hsome other (List.mem_cons_of_mem _ hother))
        fun other hother => hranks other (List.mem_cons_of_mem _ hother)
      rw [List.map_append]
      constructor
      · refine .inr ?_
        rcases hwidth with hhere | ⟨box, hbox, hedge⟩
        · exact ⟨last, List.mem_append_left _ hlast, hright.trans hhere.symm⟩
        · exact ⟨box, List.mem_append_right _ hbox, hedge⟩
      · rcases hheight with hhere | ⟨box, hbox, hedge⟩
        · rw [Scalar.larger_rat] at hhere
          rcases max_choice size.height own.height with hbefore | hown
          · exact .inl (hhere.trans hbefore)
          · exact .inr ⟨low, List.mem_append_left _ hlow,
              hbottom.trans (hhere.trans hown).symm⟩
        · exact .inr ⟨box, List.mem_append_right _ hbox, hedge⟩

theorem placeComponents_touch (hsizes : ∀ size ∈ sizes, size.IsNonneg)
    (hspacing : spacing.IsNonneg) {components : List (Component ℚ)}
    (hne : components ≠ [])
    (hsome : ∀ component ∈ components, component ≠ [])
    (hranks : ∀ component ∈ components, ∀ rank ∈ component, rank ≠ []) :
    let placed := placeComponents sizes spacing Scalar.zero Size.zero components
    Bounds.Touches ⟨0, 0, placed.2.width, placed.2.height⟩
      (placed.1.map (cornerBounds sizes)) := by
  obtain ⟨component, others, rfl⟩ := List.exists_cons_of_ne_nil hne
  obtain ⟨⟨first, hfirst, hleft⟩, ⟨high, hhigh, htop⟩, -, -⟩ :=
    placeComponent_touches hsizes spacing Scalar.zero
      (hsome component List.mem_cons_self) (hranks component List.mem_cons_self)
  obtain ⟨hwidth, hheight⟩ := placeComponents_reach hsizes spacing Scalar.zero
    Size.zero hsome hranks
  obtain ⟨-, -, -, hfits⟩ := placeComponents_between hsizes hspacing
    (le_refl Scalar.zero) (le_refl (Size.zero : Size ℚ).width)
    (component :: others)
  have hsubset : (placeComponent sizes spacing Scalar.zero component).1.map
      (cornerBounds sizes) ⊆ (placeComponents sizes spacing Scalar.zero
        Size.zero (component :: others)).1.map (cornerBounds sizes) := by
    rw [placeComponents]
    exact List.map_subset _ (List.subset_append_left _ _)
  have hfirst := hsubset hfirst
  generalize placeComponents sizes spacing Scalar.zero Size.zero
    (component :: others) = placed at hwidth hheight hfits hsubset hfirst
  -- In a frame without an extent, every box reaches the edge.
  obtain ⟨⟨item, corner⟩, hcorner, rfl⟩ := List.mem_map.mp hfirst
  obtain ⟨hx, hy, hxMax, hyMax⟩ := hfits item corner hcorner
  have hsize := sizeAt_nonneg hsizes item
  have hwidth0 := hsize.width
  have hheight0 := hsize.height
  refine ⟨⟨_, hfirst, hleft.trans Scalar.zero_rat⟩,
    ⟨_, hsubset hhigh, htop⟩, ?_, ?_⟩
  · refine hwidth.elim (fun hzero => ⟨_, hfirst, ?_⟩) id
    have hframe : placed.2.width = 0 := hzero.trans Scalar.zero_rat
    dsimp only [cornerBounds, Bounds.ofTopLeft]
    linarith
  · refine hheight.elim (fun hzero => ⟨_, hfirst, ?_⟩) id
    have hframe : placed.2.height = 0 := hzero.trans Scalar.zero_rat
    dsimp only [cornerBounds, Bounds.ofTopLeft]
    linarith

end Layered

/-! ### Placements -/

namespace Placement

variable {sizes : List (Size ℚ)} {placement : Placement ℚ}

/-- The boxes of the given sizes at their positions. -/
def bounds (placement : Placement ℚ) (sizes : List (Size ℚ)) :
    List (Bounds ℚ) :=
  placement.positions.zipWith Bounds.ofTopLeft sizes

theorem bounds_flipRanks (sizes : List (Size ℚ)) (placement : Placement ℚ) :
    (Layered.flipRanks sizes placement).bounds sizes =
      (placement.bounds sizes).map (Bounds.flip placement.size.height) := by
  obtain ⟨positions, frame⟩ := placement
  dsimp only [Layered.flipRanks, bounds]
  induction positions generalizing sizes with
  | nil => rfl
  | cons position others ih =>
      cases sizes with
      | nil => rfl
      | cons size more =>
          rw [List.zipWith_cons_cons, List.zipWith_cons_cons,
            List.zipWith_cons_cons, List.map_cons, ih]
          congr 1
          simp only [Bounds.ofTopLeft, Bounds.flip, Bounds.mk.injEq, true_and]
          constructor <;> linarith

theorem bounds_transpose (sizes : List (Size ℚ)) (placement : Placement ℚ) :
    placement.transpose.bounds (sizes.map Size.transpose) =
      (placement.bounds sizes).map Bounds.transpose := by
  rw [transpose, bounds, bounds, List.zipWith_map, List.map_zipWith]
  rfl

/-- Every item has a box.  The boxes keep their distance, and none of them
intersects another one; the frame holds them all and is tight. -/
structure Spreads (placement : Placement ℚ) (sizes : List (Size ℚ))
    (gap : Size ℚ) : Prop where
  length_positions : placement.positions.length = sizes.length
  clears : (placement.bounds sizes).Pairwise (Bounds.Clears gap)
  not_intersects : (placement.bounds sizes).Pairwise fun first second =>
    first.intersects second = false
  frames : placement.Frames sizes
  touches : Bounds.Touches ⟨0, 0, placement.size.width, placement.size.height⟩
    (placement.bounds sizes)

theorem Spreads.flipRanks {gap : Size ℚ} (h : placement.Spreads sizes gap)
    (hgap : gap.IsNonneg) :
    (Layered.flipRanks sizes placement).Spreads sizes gap := by
  have hclears : ((Layered.flipRanks sizes placement).bounds sizes).Pairwise
      (Bounds.Clears gap) := by
    rw [bounds_flipRanks, List.pairwise_map]
    exact h.clears.imp fun happart => happart.flip _
  refine ⟨?_, hclears, ?_, Layered.flipRanks_frames h.frames, ?_⟩
  · simp [Layered.flipRanks, h.length_positions]
  · exact hclears.imp fun happart => happart.intersects_eq_false hgap
  · rw [bounds_flipRanks]
    exact h.touches.flip

theorem Spreads.transpose {gap : Size ℚ} (h : placement.Spreads sizes gap)
    (hgap : gap.IsNonneg) :
    placement.transpose.Spreads (sizes.map Size.transpose) gap.transpose := by
  have hclears : (placement.transpose.bounds
      (sizes.map Size.transpose)).Pairwise (Bounds.Clears gap.transpose) := by
    rw [bounds_transpose, List.pairwise_map]
    exact h.clears.imp fun happart => happart.transpose
  refine ⟨?_, hclears, ?_, h.frames.transpose, ?_⟩
  · simp [Placement.transpose, h.length_positions]
  · exact hclears.imp fun happart =>
      happart.intersects_eq_false ⟨hgap.height, hgap.width⟩
  · rw [bounds_transpose]
    exact h.touches.transpose

end Placement

namespace Layered

variable {sizes : List (Size ℚ)} {spacing : Spacing ℚ}

/-- Each item is put where its component has it. -/
theorem bounds_placeDownward_perm {components : List (Component ℚ)}
    (hitems : ((placeComponents sizes spacing Scalar.zero Size.zero
      components).1.map Prod.fst).Perm (List.range sizes.length)) :
    ((placeDownward sizes spacing components).bounds sizes).Perm
      ((placeComponents sizes spacing Scalar.zero Size.zero
        components).1.map (cornerBounds sizes)) := by
  rw [placeDownward]
  generalize placeComponents sizes spacing Scalar.zero Size.zero components =
    placed at hitems ⊢
  obtain ⟨corners, frame⟩ := placed
  dsimp only at hitems ⊢
  have hnodup : (corners.map Prod.fst).Nodup :=
    hitems.symm.nodup List.nodup_range
  let box : ℕ → Bounds ℚ := fun item =>
    cornerBounds sizes (item, (corners.lookup item).getD Point.origin)
  have hall : corners.map (cornerBounds sizes) =
      (corners.map Prod.fst).map box := by
    rw [List.map_map]
    refine List.map_congr_left fun entry hentry => ?_
    have hlookup := (Keyed.lookup_eq_some_iff hnodup).mpr hentry
    simp only [box, Function.comp_apply, hlookup, Option.getD_some]
  have hbounds : Placement.bounds ⟨(List.range sizes.length).map fun item =>
      (corners.lookup item).getD Point.origin, frame⟩ sizes =
        (List.range sizes.length).map box := by
    refine List.ext_getElem (by simp [Placement.bounds]) fun item _ hlast => ?_
    have hitem : item < sizes.length := by simpa using hlast
    simp [Placement.bounds, box, cornerBounds, sizeAt, hitem]
  rw [hall, hbounds]
  exact (hitems.map box).symm

theorem placeDownward_spreads (hsizes : ∀ size ∈ sizes, size.IsNonneg)
    (hspacing : spacing.IsNonneg) (hne : sizes ≠ [])
    {components : List (Component ℚ)}
    (hgroups : Groups components (List.range sizes.length)) :
    (placeDownward sizes spacing components).Spreads sizes (gap spacing) := by
  have hsome : components ≠ [] := by
    rintro rfl
    exact hne (by simpa using hgroups.perm.nil_eq.symm)
  have hgap : (gap spacing).IsNonneg := ⟨hspacing.node, hspacing.rank⟩
  obtain ⟨hitems, -⟩ := placeComponents_between hsizes hspacing
    (le_refl Scalar.zero) (le_refl (Size.zero : Size ℚ).width) components
  have hperm := bounds_placeDownward_perm ((List.Perm.of_eq hitems).trans
    hgroups.perm)
  have hclears : ((placeDownward sizes spacing components).bounds
      sizes).Pairwise (Bounds.Clears (gap spacing)) := by
    refine hperm.symm.pairwise ?_ Bounds.Clears.symm
    exact (placeComponents_pairwise hsizes hspacing _ _ components).2.imp .inl
  refine ⟨by simp [placeDownward], hclears, ?_, ?_, ?_⟩
  · exact hclears.imp fun happart => happart.intersects_eq_false hgap
  · exact placeDownward_frames hsizes hspacing fun item hitem =>
      hgroups.exists_component (List.mem_range.mpr hitem)
  · exact (placeComponents_touch hsizes hspacing hsome hgroups.component_ne_nil
      hgroups.rank_ne_nil).of_perm hperm.symm

end Layered

/-- The distances of boxes along both axes. -/
def Spacing.gap (spacing : Spacing ℚ) (direction : Direction) : Size ℚ :=
  if direction.isHorizontal then (Layered.gap spacing).transpose
  else Layered.gap spacing

namespace LayeredGraph

open Layered

theorem lt_of_mem_endpoints_orientedArcs {sizes : List (Size ℚ)}
    {ends : List (ℕ × ℕ)} {v : ℕ}
    (h : v ∈ endpoints (ofEnds sizes ends).orientedArcs) :
    v < sizes.length := by
  obtain ⟨⟨source, target⟩, harc, hv⟩ := mem_endpoints_iff.mp h
  rcases (joins_orient_iff source target).mp (.inl harc) with hkept | hkept
  · obtain ⟨-, -, hsource, htarget⟩ := mem_arcs_ofEnds_iff.mp hkept
    rcases hv with rfl | rfl <;> assumption
  · obtain ⟨-, -, htarget, hsource⟩ := mem_arcs_ofEnds_iff.mp hkept
    rcases hv with rfl | rfl <;> assumption

/-- However the items are grouped into ranks, the boxes keep their distance in a
tight frame; and a layout of the boxes is a placement of such groups, whatever
arcs are added and whatever the engine answers. -/
theorem layout_spreads {sizes : List (Size ℚ)} (hsome : sizes ≠ [])
    (hsizes : ∀ size ∈ sizes, size.IsNonneg) {spacing : Spacing ℚ}
    (hspacing : spacing.IsNonneg) (direction : Direction) :
    (∀ groups : List (Component ℚ), Groups groups (List.range sizes.length) →
      (place direction (turned direction sizes) spacing groups).Spreads sizes
        (spacing.gap direction)) ∧
    ∀ {β : Type} [Scalar β] (engine : Engine ℚ β) (ends : List (ℕ × ℕ)),
      ∃ groups : List (Component ℚ), Groups groups (List.range sizes.length) ∧
        (ofEnds sizes ends).layout engine direction spacing =
          .ok (place direction (turned direction sizes) spacing groups) := by
  have hlength := length_turned direction sizes
  constructor
  · intro groups hgroups
    have hne : turned direction sizes ≠ [] := by
      rwa [← List.length_pos_iff, hlength, List.length_pos_iff]
    have hgap : (gap spacing).IsNonneg := ⟨hspacing.node, hspacing.rank⟩
    have hdownward := placeDownward_spreads
      (turned_nonneg direction hsizes) hspacing hne (hlength ▸ hgroups)
    cases direction with
    | topBottom => exact hdownward
    | bottomTop => exact hdownward.flipRanks hgap
    | leftRight =>
        have hback : (turned .leftRight sizes).map Size.transpose = sizes :=
          turned_turned .leftRight sizes
        have hspread := hdownward.transpose hgap
        rw [hback] at hspread
        exact hspread
    | rightLeft =>
        have hback : (turned .rightLeft sizes).map Size.transpose = sizes :=
          turned_turned .rightLeft sizes
        have hspread := (hdownward.flipRanks hgap).transpose hgap
        rw [hback] at hspread
        exact hspread
  · intro β _ engine ends
    have hgraph := sizes_ofEnds sizes ends
    refine ⟨_, ?_, by
      rw [layout_rat engine _ direction spacing (hgraph.symm ▸ hsome), hgraph]⟩
    rw [← hlength]
    exact groups_components_range engine _ spacing fun v hv =>
      hlength.symm ▸ lt_of_mem_endpoints_orientedArcs hv

/-- Two items in one rank and one below them, from right to left; the engine
places nothing. -/
theorem layout_spreads_rightLeft :
    let sizes : List (Size ℚ) := [⟨4, 2⟩, ⟨2, 6⟩, ⟨0, 2⟩]
    let groups : List (Component ℚ) := [[[(0, 3), (1, 3)], [(2, -1)]]]
    let placement := place .rightLeft (turned .rightLeft sizes) ⟨1, 2⟩ groups
    placement.Spreads sizes ⟨2, 1⟩ ∧
      ∃ groups : List (Component ℚ), Groups groups (List.range 3) ∧
        (ofEnds sizes [(0, 2), (2, 0), (1, 2), (1, 7)]).layout
          (⟨id, id, fun _ _ _ => []⟩ : Engine ℚ ℚ) .rightLeft ⟨1, 2⟩ =
            .ok (place .rightLeft (turned .rightLeft sizes) ⟨1, 2⟩ groups) := by
  intro sizes groups placement
  have hsizes : ∀ size ∈ sizes, size.IsNonneg := by
    intro size hsize
    simp only [sizes, List.mem_cons, List.not_mem_nil, or_false] at hsize
    rcases hsize with rfl | rfl | rfl <;> constructor <;> norm_num
  have hgroups : Groups groups (List.range 3) :=
    ⟨by decide, by simp [groups], by simp [groups]⟩
  have hspacing : (⟨1, 2⟩ : Spacing ℚ).IsNonneg :=
    ⟨by norm_num, by norm_num⟩
  obtain ⟨hplaced, hlayout⟩ :=
    layout_spreads (List.cons_ne_nil _ _) hsizes hspacing .rightLeft
  exact ⟨hplaced groups hgroups, hlayout _ _⟩

end LayeredGraph

end Flowchart
