import Flowchart.Proofs.ExactScalars
import Flowchart.Proofs.Orientation

/-!
# The order of the components

Sorting components by their least items leaves no choice, because no item stands
in two of them.  So the components of the connected items come first, in one
order for whatever order the engine names them in, and the items without arcs
follow one by one.
-/

namespace Flowchart.Layered

variable {α β : Type}

/-- The least item of the first component is less than that of the second one. -/
def Component.StartsBefore (first second : Component α) : Prop :=
  ∃ item ∈ first.items, ∀ other ∈ second.items, item < other

/-- The items that no arc touches, in ascending order. -/
def isolatedItems (arcs : List Arc) (count : ℕ) : List ℕ :=
  (List.range count).filter (· ∉ endpoints arcs)

/-! ### Least items -/

theorem leastItem?_eq_some_iff {component : Component α} {item : ℕ} :
    leastItem? component = some item ↔
      item ∈ component.items ∧ ∀ other ∈ component.items, item ≤ other :=
  List.min?_eq_some_iff

theorem exists_leastItem? {component : Component α}
    (hsome : component.items ≠ []) :
    ∃ item, leastItem? component = some item := by
  rw [← Option.isSome_iff_exists]
  exact List.isSome_min?_of_ne_nil hsome

theorem startsFirst_trans (first second third : Component α)
    (hfirst : startsFirst first second = true)
    (hsecond : startsFirst second third = true) :
    startsFirst first third = true := by
  unfold startsFirst at hfirst hsecond ⊢
  generalize leastItem? first = one at hfirst ⊢
  generalize leastItem? second = two at hfirst hsecond
  generalize leastItem? third = three at hsecond ⊢
  cases one <;> cases two <;> cases three <;> simp_all
  omega

theorem startsFirst_total (first second : Component α) :
    (startsFirst first second || startsFirst second first) = true := by
  unfold startsFirst
  cases leastItem? first <;> cases leastItem? second <;> simp
  omega

/-- Of two components without a common item, the one that may come first does
start before the other one. -/
theorem startsBefore_of_startsFirst {first second : Component α}
    (hfirst : first.items ≠ []) (hsecond : second.items ≠ [])
    (hdisjoint : first.items.Disjoint second.items)
    (h : startsFirst first second = true) : first.StartsBefore second := by
  obtain ⟨item, hitem⟩ := exists_leastItem? hfirst
  obtain ⟨other, hother⟩ := exists_leastItem? hsecond
  have hle : item ≤ other := by
    simpa [startsFirst, hitem, hother] using h
  obtain ⟨hmem, -⟩ := leastItem?_eq_some_iff.mp hitem
  obtain ⟨hothers, hleast⟩ := leastItem?_eq_some_iff.mp hother
  refine ⟨item, hmem, fun third hthird => ?_⟩
  have hne : item ≠ third := fun heq => hdisjoint hmem (heq ▸ hthird)
  have hthird := hleast third hthird
  omega

/-! ### Components in order -/

namespace Groups

variable {components : List (Component α)} {items : List ℕ}

theorem items_ne_nil (h : Groups components items) {component : Component α}
    (hmem : component ∈ components) : component.items ≠ [] := by
  obtain ⟨rank, hrank⟩ :=
    List.exists_mem_of_ne_nil component (h.component_ne_nil component hmem)
  obtain ⟨entry, hentry⟩ :=
    List.exists_mem_of_ne_nil rank (h.rank_ne_nil component hmem rank hrank)
  exact List.ne_nil_of_mem
    (List.mem_map_of_mem (List.mem_flatten.mpr ⟨rank, hrank, hentry⟩))

theorem pairwise_disjoint (h : Groups components items) (hnodup : items.Nodup) :
    components.Pairwise fun first second =>
      first.items.Disjoint second.items :=
  (List.nodup_flatMap.mp (h.perm.symm.nodup hnodup)).2

/-- Sorted by their least items, the components stand in a strict order. -/
theorem pairwise_startsBefore (h : Groups components items)
    (hnodup : items.Nodup) :
    (components.mergeSort startsFirst).Pairwise Component.StartsBefore := by
  have hsorted : Groups (components.mergeSort startsFirst) items :=
    h.of_perm (List.mergeSort_perm _ _) (List.Perm.refl _)
  have hfirst := List.pairwise_mergeSort startsFirst_trans startsFirst_total
    components
  refine (hfirst.and (hsorted.pairwise_disjoint hnodup)).imp_of_mem ?_
  rintro first second hmem hsecond ⟨hstarts, hdisjoint⟩
  exact startsBefore_of_startsFirst (hsorted.items_ne_nil hmem)
    (hsorted.items_ne_nil hsecond) hdisjoint hstarts

end Groups

variable [Scalar α] [Scalar β]

theorem connectedItems_nodup (arcs : List Arc) :
    (connectedItems arcs).Nodup :=
  (connectedItems_perm arcs).symm.nodup (nodup_eraseDups _)

theorem filter_not_contains_connectedItems (arcs : List Arc) (count : ℕ) :
    (List.range count).filter (!(connectedItems arcs).contains ·) =
      isolatedItems arcs count := by
  refine List.filter_congr fun item _ => ?_
  simp [(connectedItems_perm arcs).mem_iff]

/-- An item either has arcs or is isolated. -/
theorem connectedItems_append_isolatedItems_perm {arcs : List Arc} {count : ℕ}
    (harcs : ∀ v ∈ endpoints arcs, v < count) :
    (connectedItems arcs ++ isolatedItems arcs count).Perm
      (List.range count) := by
  have hconnected := connectedItems_perm arcs
  have hnodup : (connectedItems arcs ++ isolatedItems arcs count).Nodup := by
    refine List.nodup_append.mpr ⟨connectedItems_nodup arcs,
      List.nodup_range.filter _, ?_⟩
    rintro v hv w hw rfl
    simpa [hconnected.subset hv] using (List.mem_filter.mp hw).2
  refine (List.perm_ext_iff_of_nodup hnodup List.nodup_range).mpr fun v => ?_
  rw [List.mem_append, hconnected.mem_iff, isolatedItems, List.mem_filter,
    List.mem_range]
  by_cases hv : v ∈ endpoints arcs
  · simp [hv, harcs v hv]
  · simp [hv]

theorem groups_components_range (engine : Engine α β) {arcs : List Arc}
    (sizes : List (Size α)) (spacing : Spacing α)
    (harcs : ∀ v ∈ endpoints arcs, v < sizes.length) :
    Groups (components engine arcs sizes spacing)
      (List.range sizes.length) := by
  have hgroups := groups_components engine arcs sizes spacing
  rw [filter_not_contains_connectedItems] at hgroups
  exact hgroups.of_perm (List.Perm.refl _)
    (connectedItems_append_isolatedItems_perm harcs)

theorem mergeSort_pair {γ : Type} (le : γ → γ → Bool) (first second : γ) :
    [first, second].mergeSort le =
      if le first second then [first, second] else [second, first] := by
  simp [List.mergeSort, List.MergeSort.Internal.splitInTwo, List.merge]

/-- Whatever the engine answers, each item has one place in one rank.  The
components of the items with arcs, which are those of the engine if its answer
is accepted, come first by their least items, and every other item follows by
itself. -/
theorem components_in_order (engine : Engine α β) {arcs : List Arc}
    (sizes : List (Size α)) (spacing : Spacing α)
    (harcs : ∀ v ∈ endpoints arcs, v < sizes.length) :
    Groups (components engine arcs sizes spacing) (List.range sizes.length) ∧
      ∃ connected : List (Component α),
        components engine arcs sizes spacing =
            connected ++ (isolatedItems arcs sizes.length).map
              (fun item => [[(item, Scalar.zero)]]) ∧
          (connected.flatMap Component.items).Perm (endpoints arcs) ∧
          connected.Pairwise Component.StartsBefore ∧
          (arcs ≠ [] → ∀ accepted,
            engineComponents engine (connectedItems arcs) arcs sizes spacing =
              .ok accepted → connected.Perm accepted) := by
  obtain ⟨ranked, hranked, haccepted, hcomponents⟩ :=
    exists_ranked engine arcs sizes spacing
  have hsorted := List.mergeSort_perm ranked startsFirst
  rw [filter_not_contains_connectedItems] at hcomponents
  refine ⟨groups_components_range engine sizes spacing harcs,
    ranked.mergeSort startsFirst, hcomponents, ?_, ?_, ?_⟩
  · exact (hsorted.flatMap_right _).trans
      (hranked.perm.trans (connectedItems_perm arcs))
  · exact hranked.pairwise_startsBefore (connectedItems_nodup arcs)
  · intro hsome accepted hengine
    rw [← haccepted hsome accepted hengine]
    exact hsorted

/-- An engine that names the later items first, repeats an item and tells of a
vertex that is none; two of six items have no arcs. -/
theorem components_in_order_repeated :
    let engine : Engine ℚ ℚ := ⟨id, id, fun _ _ _ =>
      [[⟨1, 0, 0⟩, ⟨7, 5, 1⟩, ⟨2, 3, 4⟩, ⟨1, 0, 9⟩], [⟨3, 0, 4⟩, ⟨0, 0, 2⟩]]⟩
    let arcs : List Arc := [⟨4, 1⟩, ⟨0, 5⟩]
    let sizes : List (Size ℚ) := List.replicate 6 ⟨2, 1⟩
    let placed := components engine arcs sizes ⟨1, 1⟩
    (engineComponents engine (connectedItems arcs) arcs sizes
        ⟨1, 1⟩).toOption.map (List.map Component.items) =
          some [[4, 1], [0, 5]] ∧
      Groups placed (List.range 6) ∧
      placed.map Component.items = [[0, 5], [4, 1], [2], [3]] := by
  intro engine arcs sizes placed
  have harcs : ∀ v ∈ endpoints arcs, v < sizes.length := by decide
  obtain ⟨hgroups, -⟩ := components_in_order engine sizes ⟨1, 1⟩ harcs
  have hconnected : connectedItems arcs = [0, 1, 4, 5] := by
    have hends : endpoints arcs = [4, 1, 0, 5] := by decide
    simp [connectedItems, hends, List.mergeSort,
      List.MergeSort.Internal.splitInTwo]
  obtain ⟨first, second, hengine, hfirst, hsecond⟩ :
      ∃ first second : Component ℚ,
        engineComponents engine (connectedItems arcs) arcs sizes ⟨1, 1⟩ =
            .ok [first, second] ∧
          first.items = [4, 1] ∧ second.items = [0, 5] := by
    rw [hconnected]
    refine ⟨componentOfCoordinates id _ [⟨1, 0, 0⟩, ⟨4, 3, 4⟩] arcs,
      componentOfCoordinates id _ [⟨5, 0, 4⟩, ⟨0, 0, 2⟩] arcs, rfl, ?_, ?_⟩
    · rw [items_componentOfCoordinates, ranksOfCoordinates, mergeSort_pair]
      decide +kernel
    · rw [items_componentOfCoordinates, ranksOfCoordinates, mergeSort_pair]
      decide +kernel
  refine ⟨by simp [hengine, hfirst, hsecond, Except.toOption], hgroups, ?_⟩
  have hsorted : [first, second].mergeSort startsFirst = [second, first] := by
    have hleast : ∀ component : Component ℚ,
        leastItem? component = component.items.min? := fun _ => rfl
    simp [mergeSort_pair, startsFirst, hleast, hfirst, hsecond]
  have hisolated : (List.range sizes.length).filter
      (!(connectedItems arcs).contains ·) = [2, 3] := by
    rw [hconnected]
    decide
  have hplaced : placed = [second, first] ++
      [2, 3].map fun item => [[(item, Scalar.zero)]] := by
    simp only [placed, components, hengine, hisolated]
    rw [← hsorted]
    rfl
  have hsingle : ∀ (item : ℕ) (center : ℚ),
      Component.items [[(item, center)]] = [item] := fun _ _ => rfl
  simp [hplaced, hfirst, hsecond, hsingle]

end Flowchart.Layered
