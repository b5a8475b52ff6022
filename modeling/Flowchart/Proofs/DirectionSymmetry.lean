import Flowchart.Proofs.LayoutCoverage

/-!
# Layouts in other directions

A layout in a horizontal direction is the vertical layout of the boxes on their
sides with the axes exchanged, and a reversed layout is the other one upside
down.  Both hold for scalars of any kind, since no operation on coordinates is
done in another order; in particular they hold for rounded machine numbers, and
a layout fails in one direction exactly if it fails in the other.
-/

namespace Flowchart

variable {α β : Type}

/-- The direction with the axes exchanged. -/
def Direction.transpose : Direction → Direction
  | .topBottom => .leftRight
  | .bottomTop => .rightLeft
  | .leftRight => .topBottom
  | .rightLeft => .bottomTop

theorem Direction.isHorizontal_transpose (direction : Direction) :
    direction.transpose.isHorizontal = !direction.isHorizontal := by
  cases direction <;> rfl

@[simp] theorem Point.transpose_transpose (point : Point α) :
    point.transpose.transpose = point :=
  rfl

@[simp] theorem Size.transpose_transpose (size : Size α) :
    size.transpose.transpose = size :=
  rfl

namespace Placement

@[simp] theorem transpose_transpose (placement : Placement α) :
    placement.transpose.transpose = placement := by
  simp [transpose, Function.comp_def]

variable [Scalar α]

theorem isFinite_transpose (placement : Placement α) :
    placement.transpose.isFinite = placement.isFinite := by
  have hpoint : ∀ point : Point α, point.transpose.isFinite = point.isFinite :=
    fun point => Bool.and_comm _ _
  have hsize : placement.size.transpose.isFinite = placement.size.isFinite :=
    Bool.and_comm _ _
  simp [isFinite, transpose, hsize, hpoint, Function.comp_def]

/-- The placement shows the boxes of the other one upside down, in the same
frame. -/
structure Mirrors (placement other : Placement α) (sizes : List (Size α)) :
    Prop where
  size_eq : placement.size = other.size
  xs_eq : placement.positions.map Point.x = other.positions.map Point.x
  ys_eq : placement.positions.map Point.y =
    other.positions.zipWith (fun corner size =>
      other.size.height - corner.y - size.height) sizes

theorem mirrors_flipRanks {placement : Placement α} {sizes : List (Size α)}
    (hlength : placement.positions.length = sizes.length) :
    (Layered.flipRanks sizes placement).Mirrors placement sizes := by
  refine ⟨rfl, ?_, ?_⟩
  · refine List.ext_getElem (by simp [Layered.flipRanks, hlength]) ?_
    intro item _ _
    simp [Layered.flipRanks]
  · simp only [Layered.flipRanks, List.map_zipWith]

end Placement

namespace LayeredGraph

open Layered

/-- The same arcs between boxes that lie on their sides. -/
def transpose (graph : LayeredGraph α) : LayeredGraph α :=
  { graph with sizes := graph.sizes.map Size.transpose }

/-- The sizes with which boxes are placed from top to bottom. -/
theorem sizes_transpose (graph : LayeredGraph α) (direction : Direction) :
    (if direction.transpose.isHorizontal then graph.sizes.map Size.transpose
      else graph.sizes) =
      if direction.isHorizontal then
        graph.transpose.sizes.map Size.transpose
      else graph.transpose.sizes := by
  rw [direction.isHorizontal_transpose]
  cases direction.isHorizontal <;> simp [transpose, Function.comp_def]

variable [Scalar α] [Scalar β]

theorem place_transpose (direction : Direction) (sizes : List (Size α))
    (spacing : Spacing α) (components : List (Component α)) :
    place direction.transpose sizes spacing components =
      (place direction sizes spacing components).transpose := by
  cases direction with
  | topBottom => rfl
  | bottomTop => rfl
  | leftRight => exact (Placement.transpose_transpose _).symm
  | rightLeft => exact (Placement.transpose_transpose _).symm

theorem layout_transpose (engine : Engine α β) (graph : LayeredGraph α)
    (direction : Direction) (spacing : Spacing α) :
    graph.layout engine direction.transpose spacing =
      (graph.transpose.layout engine direction spacing).map
        Placement.transpose := by
  have hempty : graph.transpose.sizes.isEmpty = graph.sizes.isEmpty := by
    simp [transpose]
  have harcs : graph.transpose.orientedArcs = graph.orientedArcs := rfl
  unfold layout
  rw [hempty, harcs, sizes_transpose]
  generalize (if direction.isHorizontal then
    graph.transpose.sizes.map Size.transpose else graph.transpose.sizes) = sizes
  dsimp only
  rw [place_transpose, Placement.isFinite_transpose]
  split_ifs <;> rfl

theorem eq_place_of_layout_eq_ok {engine : Engine α β} {graph : LayeredGraph α}
    {direction : Direction} {spacing : Spacing α} {placement : Placement α}
    (hsome : graph.sizes ≠ []) (hvertical : direction.isHorizontal = false)
    (h : graph.layout engine direction spacing = .ok placement) :
    placement = place direction graph.sizes spacing
      (components engine graph.orientedArcs graph.sizes spacing) := by
  unfold layout at h
  rw [if_neg (mt List.isEmpty_iff.mp hsome)] at h
  simp only [hvertical, Bool.false_eq_true, if_false] at h
  split at h
  next => exact (Except.ok.inj h).symm
  next => cases h

/-- Layouts in the two vertical directions are mirror images of each other. -/
theorem mirrors_of_layout_eq_ok {engine : Engine α β} {graph : LayeredGraph α}
    {spacing : Spacing α} {down up : Placement α}
    (hdown : graph.layout engine .topBottom spacing = .ok down)
    (hup : graph.layout engine .bottomTop spacing = .ok up) :
    up.Mirrors down graph.sizes := by
  have hlength := length_positions_layout hdown
  by_cases hempty : graph.sizes = []
  · have hnone : ∀ direction, graph.layout engine direction spacing =
        .ok ⟨[], Size.zero⟩ := by
      intro direction
      simp [layout, hempty]
    obtain rfl := Except.ok.inj ((hnone _).symm.trans hdown)
    obtain rfl := Except.ok.inj ((hnone _).symm.trans hup)
    exact ⟨rfl, rfl, rfl⟩
  · have hflip : up = flipRanks graph.sizes down := by
      rw [eq_place_of_layout_eq_ok hempty rfl hup,
        eq_place_of_layout_eq_ok hempty rfl hdown]
      rfl
    rw [hflip]
    exact Placement.mirrors_flipRanks hlength

/-- With the axes exchanged, the layout of the boxes on their sides is the layout
of the boxes, faults included; and upside down, it is the one in the opposite
vertical direction. -/
theorem layout_symmetric (engine : Engine α β) (graph : LayeredGraph α)
    (spacing : Spacing α) :
    (∀ direction, graph.layout engine direction.transpose spacing =
      (graph.transpose.layout engine direction spacing).map
        Placement.transpose) ∧
    ∀ down up, graph.layout engine .topBottom spacing = .ok down →
      graph.layout engine .bottomTop spacing = .ok up →
      up.Mirrors down graph.sizes :=
  ⟨fun direction => graph.layout_transpose engine direction spacing,
    fun _ _ => mirrors_of_layout_eq_ok⟩

/-- Boxes of three heights, side by side, in machine numbers. -/
theorem layout_symmetric_row :
    let graph : LayeredGraph Float32 := ⟨[⟨80, 44⟩, ⟨33.3, 20⟩, ⟨120, 64.1⟩], []⟩
    ∃ down up, graph.layout sugiyama .topBottom ⟨50, 60⟩ = .ok down ∧
      graph.layout sugiyama .bottomTop ⟨50, 60⟩ = .ok up ∧
      up.Mirrors down graph.sizes ∧ up.positions ≠ down.positions := by
  intro graph
  let view (direction : Direction) :=
    (graph.layout sugiyama direction ⟨50, 60⟩).toOption.map
      Placement.positions
  have hview : view .topBottom ≠ none ∧ view .bottomTop ≠ none ∧
      view .topBottom ≠ view .bottomTop := by decide +kernel
  cases hdown : graph.layout sugiyama .topBottom ⟨50, 60⟩ with
  | error fault => simp [view, hdown, Except.toOption] at hview
  | ok down =>
      cases hup : graph.layout sugiyama .bottomTop ⟨50, 60⟩ with
      | error fault => simp [view, hup, Except.toOption] at hview
      | ok up =>
          refine ⟨down, up, rfl, rfl, ?_, ?_⟩
          · exact (layout_symmetric sugiyama graph ⟨50, 60⟩).2 down up hdown hup
          · rintro hsame
            simp [view, hdown, hup, hsame, Except.toOption] at hview

end LayeredGraph

end Flowchart
