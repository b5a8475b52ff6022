import Flowchart.Proofs.ComponentCoverage
import Flowchart.Proofs.ExactScalars
import Mathlib.Algebra.Order.Group.Abs
import Mathlib.Data.Prod.Lex

/-!
# Ranks follow the arcs

Items are put in order by y and then by x, and a rank takes all items that lie
within the tolerance of its first one.  With exact coordinates, arcs that all
lead upward or all lead downward by more than the tolerance never stay in a
rank, and the ranks are turned such that every one of these arcs leads onward,
no matter what other arcs there are.
-/

namespace Flowchart.Layered

/-! ### Exact comparisons -/

theorem less_eq_false_iff {x y : ℚ} : Scalar.less x y = false ↔ y ≤ x := by
  rw [← Bool.not_eq_true, Scalar.less_rat, not_lt]

theorem distance_rat (x y : ℚ) : distance x y = |x - y| := by
  unfold distance
  split_ifs with hless
  · rw [abs_of_neg (sub_neg.mpr (Scalar.less_rat.mp hless)), neg_sub]
  · rw [Scalar.less_rat, not_lt] at hless
    rw [abs_of_nonneg (sub_nonneg.mpr hless)]

theorem rankTolerance_nonneg : (0 : ℚ) ≤ rankTolerance := by
  rw [rankTolerance, Scalar.ofNat_rat, Scalar.ofNat_rat]
  positivity

variable {item other : Located ℚ}

theorem isNear_iff :
    isNear item other = true ↔ |other.y - item.y| ≤ rankTolerance := by
  rw [isNear, distance_rat, Bool.not_eq_true', less_eq_false_iff]

/-- Items are ordered by y, then by x, then by vertex. -/
def Located.key (item : Located ℚ) : ℚ ×ₗ ℚ ×ₗ ℕ :=
  toLex (item.y, toLex (item.x, item.vertex))

theorem Located.precedes_iff :
    item.precedes other = true ↔ item.key ≤ other.key := by
  simp only [precedes, key, Prod.Lex.toLex_le_toLex, Scalar.order_rat,
    Ordering.isLE_then_iff_or, compare_lt_iff_lt, compare_eq_iff_eq,
    Std.isLE_compare]

/-! ### Items in order -/

/-- Items in the order in which ranks are formed. -/
abbrev InOrder (items : List (Located ℚ)) : Prop :=
  items.Pairwise fun item other => item.key ≤ other.key

theorem inOrder_mergeSort (items : List (Located ℚ)) :
    InOrder (items.mergeSort Located.precedes) := by
  refine (List.pairwise_mergeSort ?_ ?_ items).imp Located.precedes_iff.mp
  · intro first second third
    simp only [Located.precedes_iff]
    exact le_trans
  · intro first second
    simp only [Bool.or_eq_true, Located.precedes_iff]
    exact le_total _ _

theorem Located.y_le_of_key_le (h : item.key ≤ other.key) : item.y ≤ other.y := by
  rcases (Prod.Lex.toLex_le_toLex).mp h with hlt | ⟨heq, -⟩
  · exact le_of_lt hlt
  · exact le_of_eq heq

theorem Located.x_le_of_key_le (h : item.key ≤ other.key)
    (hy : item.y = other.y) : item.x ≤ other.x := by
  rcases (Prod.Lex.toLex_le_toLex).mp h with hlt | ⟨-, hle⟩
  · exact absurd hy (ne_of_lt hlt)
  · rcases (Prod.Lex.toLex_le_toLex).mp hle with hlt | ⟨heq, -⟩
    · exact le_of_lt hlt
    · exact le_of_eq heq

/-! ### Gathered ranks -/

/-- The ranks hold the items.  A rank keeps to the tolerance around its first item
and is ordered by x; the first items of two ranks lie farther apart. -/
structure Layers (ranks : List (List (Located ℚ))) (items : List (Located ℚ)) :
    Prop where
  perm : ranks.flatten.Perm items
  near : ∀ rank ∈ ranks, ∀ first ∈ rank.head?, ∀ item ∈ rank,
    |item.y - first.y| ≤ rankTolerance
  ordered : ∀ rank ∈ ranks,
    rank.Pairwise fun item other => item.y = other.y → item.x ≤ other.x
  apart : ranks.Pairwise fun rank other => ∀ first ∈ rank.head?,
    ∀ second ∈ other.head?, rankTolerance < |second.y - first.y|

theorem Layers.reverse {ranks : List (List (Located ℚ))}
    {items : List (Located ℚ)} (h : Layers ranks items) :
    Layers ranks.reverse items where
  perm := ranks.reverse_perm.flatten.trans h.perm
  near rank hrank := h.near rank (List.mem_reverse.mp hrank)
  ordered rank hrank := h.ordered rank (List.mem_reverse.mp hrank)
  apart := by
    refine List.pairwise_reverse.mpr (h.apart.imp fun hapart => ?_)
    intro first hfirst second hsecond
    rw [abs_sub_comm]
    exact hapart second hsecond first hfirst

/-- What is left behind a rank lies beyond the tolerance. -/
theorem lt_of_mem_dropWhile_isNear {first : Located ℚ}
    {others : List (Located ℚ)} (hsorted : InOrder (first :: others))
    (hitem : item ∈ others.dropWhile (isNear first)) :
    first.y + rankTolerance < item.y := by
  induction others with
  | nil => cases hitem
  | cons next rest ih =>
      obtain ⟨hfirst, hothers⟩ := List.pairwise_cons.mp hsorted
      rw [List.dropWhile_cons] at hitem
      split_ifs at hitem with hnear
      · refine ih (List.pairwise_cons.mpr ⟨fun last hlast => ?_, ?_⟩) hitem
        · exact hfirst last (List.mem_cons_of_mem next hlast)
        · exact (List.pairwise_cons.mp hothers).2
      · have hle := Located.y_le_of_key_le (hfirst next List.mem_cons_self)
        rw [isNear_iff, abs_of_nonneg (sub_nonneg.mpr hle), not_le] at hnear
        rcases List.mem_cons.mp hitem with rfl | hmem
        · linarith
        · have hbehind := Located.y_le_of_key_le
            ((List.pairwise_cons.mp hothers).1 item hmem)
          linarith

theorem exists_isNear_of_mem_gatherRanks {items rank : List (Located ℚ)}
    (h : rank ∈ gatherRanks items) :
    ∃ first others, rank = first :: others ∧
      ∀ item ∈ others, isNear first item = true := by
  fun_induction gatherRanks items with
  | case1 => cases h
  | case2 first others ih =>
      rcases List.mem_cons.mp h with rfl | hmem
      · exact ⟨first, _, rfl, List.all_eq_true.mp List.all_takeWhile⟩
      · exact ih hmem

theorem gatherRanks_apart {items : List (Located ℚ)} (hsorted : InOrder items) :
    (gatherRanks items).Pairwise fun rank other => ∀ first ∈ rank.head?,
      ∀ item ∈ other, first.y + rankTolerance < item.y := by
  fun_induction gatherRanks items with
  | case1 => exact List.Pairwise.nil
  | case2 first others ih =>
      have hrest : InOrder (others.dropWhile (isNear first)) :=
        (List.pairwise_cons.mp hsorted).2.sublist (List.dropWhile_sublist _)
      refine List.pairwise_cons.mpr ⟨?_, ih hrest⟩
      intro rank hrank start hstart item hitem
      obtain rfl : first = start := by simpa using hstart
      refine lt_of_mem_dropWhile_isNear hsorted ?_
      rw [← flatten_gatherRanks (others.dropWhile (isNear first))]
      exact List.mem_flatten.mpr ⟨rank, hrank, hitem⟩

theorem layers_gatherRanks {items : List (Located ℚ)} (hsorted : InOrder items) :
    Layers (gatherRanks items) items where
  perm := List.Perm.of_eq (flatten_gatherRanks items)
  near := by
    intro rank hrank start hstart item hitem
    obtain ⟨first, others, rfl, hnear⟩ :=
      exists_isNear_of_mem_gatherRanks hrank
    obtain rfl : first = start := by simpa using hstart
    rcases List.mem_cons.mp hitem with rfl | hmem
    · rw [sub_self, abs_zero]
      exact rankTolerance_nonneg
    · exact isNear_iff.mp (hnear item hmem)
  ordered := by
    intro rank hrank
    rw [← flatten_gatherRanks items] at hsorted
    have hrank := (List.pairwise_flatten.mp hsorted).1 rank hrank
    exact hrank.imp Located.x_le_of_key_le
  apart := by
    refine (gatherRanks_apart hsorted).imp ?_
    intro rank other hapart first hfirst second hsecond
    have hlt := hapart first hfirst second (List.mem_of_mem_head? hsecond)
    exact lt_of_lt_of_le (by linarith) (le_abs_self _)

/-! ### Arcs between ranks -/

/-- Every arc between items leads to a greater y, by more than the tolerance. -/
def Rises (items : List (Located ℚ)) (arcs : List Arc) : Prop :=
  ∀ item ∈ items, ∀ other ∈ items, ⟨item.vertex, other.vertex⟩ ∈ arcs →
    item.y + rankTolerance < other.y

/-- Every arc between items leads to a smaller y, by more than the tolerance. -/
def Falls (items : List (Located ℚ)) (arcs : List Arc) : Prop :=
  ∀ item ∈ items, ∀ other ∈ items, ⟨item.vertex, other.vertex⟩ ∈ arcs →
    other.y + rankTolerance < item.y

/-- The ranks of the ends of every arc are in the relation. -/
def ArcsRelate (relation : ℕ → ℕ → Prop) (ranks : List (List (Located ℚ)))
    (arcs : List Arc) : Prop :=
  ∀ i j rank other, ranks[i]? = some rank → ranks[j]? = some other →
    ∀ item ∈ rank, ∀ target ∈ other, ⟨item.vertex, target.vertex⟩ ∈ arcs →
      relation i j

variable {ranks : List (List (Located ℚ))} {arcs : List Arc}

theorem exists_of_rankIndex? {v i : ℕ} (h : rankIndex? ranks v = some i) :
    ∃ rank, ranks[i]? = some rank ∧ ∃ item ∈ rank, item.vertex = v := by
  obtain ⟨hi, hany, -⟩ := List.findIdx?_eq_some_iff_getElem.mp h
  refine ⟨ranks[i], List.getElem?_eq_getElem hi, ?_⟩
  simpa using hany

theorem exists_rankIndex? (hitem : item ∈ ranks.flatten) :
    ∃ i, rankIndex? ranks item.vertex = some i := by
  obtain ⟨rank, hrank, hmem⟩ := List.mem_flatten.mp hitem
  rw [← Option.isSome_iff_exists, rankIndex?, List.findIdx?_isSome,
    List.any_eq_true]
  exact ⟨rank, hrank, List.any_eq_true.mpr ⟨item, hmem, by simp⟩⟩

/-- Arcs that lead one way are not counted for the other one. -/
theorem countArcs_eq_zero {relation : ℕ → ℕ → Prop} {test : ℕ → ℕ → Bool}
    (h : ArcsRelate relation ranks arcs)
    (hno : ∀ i j, relation i j → test i j = false) :
    countArcs ranks arcs test = 0 := by
  rw [countArcs, List.countP_eq_zero]
  intro arc harc
  split
  next i j hsource htarget =>
    obtain ⟨rank, hrank, item, hitem, hi⟩ := exists_of_rankIndex? hsource
    obtain ⟨other, hother, target, hmem, hj⟩ := exists_of_rankIndex? htarget
    have hrelation := h i j rank other hrank hother item hitem target hmem
      (by rwa [hi, hj])
    simp [hno i j hrelation]
  next => simp

theorem countArcs_pos {relation : ℕ → ℕ → Prop} {test : ℕ → ℕ → Bool}
    (h : ArcsRelate relation ranks arcs)
    (hyes : ∀ i j, relation i j → test i j = true)
    (hitem : item ∈ ranks.flatten) (hother : other ∈ ranks.flatten)
    (harc : ⟨item.vertex, other.vertex⟩ ∈ arcs) :
    0 < countArcs ranks arcs test := by
  rw [countArcs, List.countP_pos_iff]
  refine ⟨_, harc, ?_⟩
  obtain ⟨i, hi⟩ := exists_rankIndex? hitem
  obtain ⟨j, hj⟩ := exists_rankIndex? hother
  obtain ⟨rank, hrank, first, hfirst, hsource⟩ := exists_of_rankIndex? hi
  obtain ⟨next, hnext, second, hsecond, htarget⟩ := exists_of_rankIndex? hj
  have hrelation := h i j rank next hrank hnext first hfirst second hsecond
    (by rwa [hsource, htarget])
  simp [hi, hj, hyes i j hrelation]

/-- An item that lies beyond the tolerance stands in a later rank. -/
theorem lt_of_y_lt {items : List (Located ℚ)} (hsorted : InOrder items)
    {i j : ℕ} {rank next : List (Located ℚ)}
    (hrank : (gatherRanks items)[i]? = some rank)
    (hnext : (gatherRanks items)[j]? = some next)
    (hitem : item ∈ rank) (hother : other ∈ next)
    (h : item.y + rankTolerance < other.y) : i < j := by
  have hlayers := layers_gatherRanks hsorted
  have hmem := List.mem_of_getElem? hnext
  obtain ⟨first, others, rfl, -⟩ := exists_isNear_of_mem_gatherRanks hmem
  have hnear := (abs_le.mp (hlayers.near _ hmem first rfl other hother)).2
  rw [← not_le]
  intro hle
  rcases Nat.lt_or_eq_of_le hle with hlt | rfl
  · obtain ⟨hj, hstart⟩ := List.getElem?_eq_some_iff.mp hnext
    obtain ⟨hi, hend⟩ := List.getElem?_eq_some_iff.mp hrank
    have hapart := List.pairwise_iff_getElem.mp (gatherRanks_apart hsorted)
      j i hj hi hlt
    rw [hstart, hend] at hapart
    have hbeyond := hapart first rfl item hitem
    have htolerance := rankTolerance_nonneg
    linarith
  · obtain rfl := Option.some.inj (hrank.symm.trans hnext)
    rw [← flatten_gatherRanks items] at hsorted
    have hfirst : first.y ≤ item.y := by
      have hwithin := (List.pairwise_flatten.mp hsorted).1 _ hmem
      rcases List.mem_cons.mp hitem with rfl | hlater
      · exact le_rfl
      · exact Located.y_le_of_key_le
          ((List.pairwise_cons.mp hwithin).1 item hlater)
    linarith

/-- What the gathered ranks hold are items. -/
theorem mem_of_mem_gatherRanks {items rank : List (Located ℚ)} {i : ℕ}
    (hrank : (gatherRanks items)[i]? = some rank) (hitem : item ∈ rank) :
    item ∈ items := by
  rw [← flatten_gatherRanks items]
  exact List.mem_flatten.mpr ⟨rank, List.mem_of_getElem? hrank, hitem⟩

section Sorted

variable {items sorted : List (Located ℚ)} (hsorted : InOrder sorted)
  (hsubset : sorted ⊆ items)

include hsorted hsubset

theorem Rises.arcsRelate (h : Rises items arcs) :
    ArcsRelate (· < ·) (gatherRanks sorted) arcs := by
  intro i j rank other hrank hother item hitem target htarget harc
  have hlt := h item (hsubset (mem_of_mem_gatherRanks hrank hitem)) target
    (hsubset (mem_of_mem_gatherRanks hother htarget)) harc
  exact lt_of_y_lt hsorted hrank hother hitem htarget hlt

theorem Falls.arcsRelate (h : Falls items arcs) :
    ArcsRelate (· > ·) (gatherRanks sorted) arcs := by
  intro i j rank other hrank hother item hitem target htarget harc
  have hlt := h item (hsubset (mem_of_mem_gatherRanks hrank hitem)) target
    (hsubset (mem_of_mem_gatherRanks hother htarget)) harc
  exact lt_of_y_lt hsorted hother hrank htarget hitem hlt

end Sorted

/-- Read from the last rank on, the arcs lead the other way. -/
theorem ArcsRelate.reverse (h : ArcsRelate (· > ·) ranks arcs) :
    ArcsRelate (· < ·) ranks.reverse arcs := by
  intro i j rank other hrank hother item hitem target htarget harc
  obtain ⟨hi, -⟩ := List.getElem?_eq_some_iff.mp hrank
  obtain ⟨hj, -⟩ := List.getElem?_eq_some_iff.mp hother
  rw [List.length_reverse] at hi hj
  rw [List.getElem?_reverse hi] at hrank
  rw [List.getElem?_reverse hj] at hother
  have hlt := h _ _ rank other hrank hother item hitem target htarget harc
  omega

theorem orientRanks_arcsRelate (h : ArcsRelate (· < ·) ranks arcs ∨
    ArcsRelate (· > ·) ranks arcs) :
    ArcsRelate (· < ·) (orientRanks ranks arcs) arcs := by
  unfold orientRanks
  dsimp only
  rcases h with hforward | hbackward
  · have hnone : countArcs ranks arcs (fun source target => target < source) =
        0 := by
      refine countArcs_eq_zero hforward fun i j hlt => ?_
      simp [Nat.le_of_lt hlt]
    rw [hnone, if_neg (Nat.not_lt_zero _)]
    exact hforward
  · have hnone : countArcs ranks arcs (· < ·) = 0 := by
      refine countArcs_eq_zero hbackward fun i j hlt => ?_
      simp [Nat.le_of_lt hlt]
    rw [hnone]
    split_ifs with hsome
    · exact hbackward.reverse
    · -- Without arcs between the items, there is nothing to turn.
      intro i j rank other hrank hother item hitem target htarget harc
      refine absurd (countArcs_pos hbackward (fun i j hlt => ?_)
        (List.mem_flatten.mpr ⟨rank, List.mem_of_getElem? hrank, hitem⟩)
        (List.mem_flatten.mpr ⟨other, List.mem_of_getElem? hother, htarget⟩)
        harc) hsome
      simpa using hlt

theorem Layers.orientRanks {items : List (Located ℚ)} (h : Layers ranks items)
    (arcs : List Arc) : Layers (orientRanks ranks arcs) items := by
  unfold Layered.orientRanks
  dsimp only
  split_ifs
  · exact h.reverse
  · exact h

/-- The ranks of placed items hold each item once, with the items near in y to the
first one, in the order of x.  If the arcs between the items all rise or all
fall, every one of them leads from a rank to a later one. -/
theorem ranksOfCoordinates_layers (items : List (Located ℚ)) (arcs : List Arc) :
    let ranks := ranksOfCoordinates items arcs
    Layers ranks items ∧
      (Rises items arcs ∨ Falls items arcs → ArcsRelate (· < ·) ranks arcs) ∧
      ∀ {α : Type} [Scalar α] (narrow : ℚ → α) (unit : α),
        (componentOfCoordinates narrow unit items arcs).map (List.map Prod.fst) =
          ranks.map (List.map Located.vertex) := by
  have hsorted := inOrder_mergeSort items
  have hperm := List.mergeSort_perm items Located.precedes
  intro ranks
  refine ⟨?_, ?_, ?_⟩
  · have hlayers := (layers_gatherRanks hsorted).orientRanks arcs
    exact ⟨hlayers.perm.trans hperm, hlayers.near, hlayers.ordered,
      hlayers.apart⟩
  · intro h
    refine orientRanks_arcsRelate (h.imp ?_ ?_)
    · exact Rises.arcsRelate hsorted hperm.subset
    · exact Falls.arcsRelate hsorted hperm.subset
  · intro α _ narrow unit
    simp [componentOfCoordinates, ranks, Function.comp_def]

/-- Two items that hardly differ in y, and one that leads to both of them; an arc
from elsewhere does not count. -/
theorem ranksOfCoordinates_layers_fork :
    let items : List (Located ℚ) :=
      [⟨1, 5, 2⟩, ⟨0, 3, 4⟩, ⟨2, 1, 2 + 1 / 2000000⟩]
    let arcs : List Arc := [⟨0, 1⟩, ⟨7, 2⟩, ⟨0, 2⟩]
    let ranks := ranksOfCoordinates items arcs
    ranks.map (List.map Located.vertex) = [[0], [1, 2]] ∧
      Falls items arcs ∧ ArcsRelate (· < ·) ranks arcs := by
  intro items arcs ranks
  have hfalls : Falls items arcs := by
    simp only [Falls, items, arcs, rankTolerance, Scalar.ofNat_rat]
    simp
    norm_num
  have hsort : items.mergeSort Located.precedes =
      [⟨1, 5, 2⟩, ⟨2, 1, 2 + 1 / 2000000⟩, ⟨0, 3, 4⟩] := by
    norm_num [items, List.mergeSort, List.MergeSort.Internal.splitInTwo,
      List.merge, Located.precedes, compare, compareOfLessAndEq]
  refine ⟨?_, hfalls, ?_⟩
  · dsimp only [ranks, ranksOfCoordinates, arcs]
    rw [hsort]
    decide +kernel
  · exact (ranksOfCoordinates_layers items arcs).2.1 (.inr hfalls)

end Flowchart.Layered
