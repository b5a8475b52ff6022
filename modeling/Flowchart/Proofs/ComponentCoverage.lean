import Flowchart.Layered.Component
import Flowchart.Proofs.Outcome
import Mathlib.Data.List.Perm.Lattice
import Mathlib.Data.List.Perm.Subperm

/-!
# Components cover the items

The coordinates of an engine are used only if they place every item that has
arcs; otherwise every such item gets a rank by its longest path, and an item
without arcs is a component of its own.  So whatever the engine answers, the
components share out the items: each item has one place in one rank, and no
rank is empty.
-/

namespace Flowchart.Layered

variable {α β : Type}

def Component.items (component : Component α) : List ℕ :=
  component.flatten.map Prod.fst

/-- Each of the items stands in one rank of one component; no component and no
rank is empty. -/
structure Groups (components : List (Component α)) (items : List ℕ) : Prop where
  perm : (components.flatMap Component.items).Perm items
  component_ne_nil : ∀ component ∈ components, component ≠ []
  rank_ne_nil : ∀ component ∈ components, ∀ rank ∈ component, rank ≠ []

namespace Groups

variable {components others : List (Component α)} {items more : List ℕ}

theorem nil : Groups ([] : List (Component α)) [] :=
  ⟨List.Perm.refl _, by simp, by simp⟩

theorem append (h : Groups components items) (hothers : Groups others more) :
    Groups (components ++ others) (items ++ more) where
  perm := by
    rw [List.flatMap_append]
    exact h.perm.append hothers.perm
  component_ne_nil component hmem := by
    rcases List.mem_append.mp hmem with hfirst | hlast
    · exact h.component_ne_nil component hfirst
    · exact hothers.component_ne_nil component hlast
  rank_ne_nil component hmem := by
    rcases List.mem_append.mp hmem with hfirst | hlast
    · exact h.rank_ne_nil component hfirst
    · exact hothers.rank_ne_nil component hlast

theorem of_perm (h : Groups components items) (hsame : others.Perm components)
    (hitems : items.Perm more) : Groups others more where
  perm := ((hsame.flatMap_right _).trans h.perm).trans hitems
  component_ne_nil component hmem :=
    h.component_ne_nil component (hsame.subset hmem)
  rank_ne_nil component hmem := h.rank_ne_nil component (hsame.subset hmem)

theorem singles (center : α) (items : List ℕ) :
    Groups (items.map fun item => [[(item, center)]]) items where
  perm := by
    rw [List.flatMap_map]
    exact List.Perm.of_eq (List.flatMap_singleton' items)
  component_ne_nil := by simp
  rank_ne_nil := by simp

theorem exists_component (h : Groups components items) {item : ℕ}
    (hitem : item ∈ items) : ∃ component ∈ components, item ∈ component.items :=
  List.mem_flatMap.mp (h.perm.symm.subset hitem)

end Groups

variable [Scalar α] [Scalar β]

/-! ### Items that an engine has placed -/

/-- Only connected items are counted as seen, each of them once. -/
structure Counts (connected seen : List ℕ) : Prop where
  nodup : seen.Nodup
  subset : seen ⊆ connected

theorem Counts.cons {connected seen : List ℕ} (h : Counts connected seen)
    {item : ℕ} (hmem : item ∈ connected) (hnew : item ∉ seen) :
    Counts connected (item :: seen) :=
  ⟨List.nodup_cons.mpr ⟨hnew, h.nodup⟩,
    List.cons_subset.mpr ⟨hmem, h.subset⟩⟩

/-- Once as many items are counted as there are, none is missing. -/
theorem Counts.perm {connected seen : List ℕ} (h : Counts connected seen)
    (hlength : seen.length = connected.length) : seen.Perm connected :=
  (h.nodup.subperm h.subset).perm_of_length_le (Nat.le_of_eq hlength.symm)

theorem placedItems_counts {connected seen counted : List ℕ}
    {located items : List (Located β)} (hcounts : Counts connected seen)
    (h : placedItems connected seen located = .ok (items, counted)) :
    Counts connected counted ∧
      counted.Perm (items.map Located.vertex ++ seen) := by
  induction located generalizing seen items with
  | nil =>
      cases h
      exact ⟨hcounts, List.Perm.refl _⟩
  | cons first others ih =>
      rw [placedItems] at h
      split at h
      next => exact ih hcounts h
      next item hitem =>
        split_ifs at h with hfinite hseen
        -- Of two positions of one item, only the first one counts.
        · exact ih hcounts h
        · obtain ⟨⟨more, count⟩, hmore, hresult⟩ := bind_eq_ok_iff.mp h
          cases hresult
          have hnew : item ∉ seen := by simpa using hseen
          obtain ⟨hcounted, hperm⟩ :=
            ih (hcounts.cons (List.mem_of_getElem? hitem) hnew) hmore
          exact ⟨hcounted, hperm.trans List.perm_middle⟩

theorem placedParts_counts {connected seen counted : List ℕ}
    {located parts : List (List (Located β))} (hcounts : Counts connected seen)
    (h : placedParts connected seen located = .ok (parts, counted)) :
    Counts connected counted ∧
      counted.Perm (parts.flatMap (List.map Located.vertex) ++ seen) ∧
      ∀ part ∈ parts, part ≠ [] := by
  induction located generalizing seen parts with
  | nil =>
      cases h
      exact ⟨hcounts, List.Perm.refl _, by simp⟩
  | cons first others ih =>
      rw [placedParts] at h
      obtain ⟨⟨items, between⟩, hitems, hrest⟩ := bind_eq_ok_iff.mp h
      obtain ⟨⟨more, count⟩, hmore, hresult⟩ := bind_eq_ok_iff.mp hrest
      cases hresult
      obtain ⟨hbetween, hfirst⟩ := placedItems_counts hcounts hitems
      obtain ⟨hcounted, hothers, hsome⟩ := ih hbetween hmore
      have hparts : (if items.isEmpty then more else items :: more).flatMap
          (List.map Located.vertex) = items.map Located.vertex ++
            more.flatMap (List.map Located.vertex) := by
        split_ifs with hempty
        · rw [List.isEmpty_iff.mp hempty]
          rfl
        · rfl
      refine ⟨hcounted, ?_, ?_⟩
      · rw [hparts, List.append_assoc]
        refine hothers.trans ((hfirst.append_left _).trans ?_)
        rw [← List.append_assoc, ← List.append_assoc]
        exact List.perm_append_comm.append_right seen
      · intro part hpart
        split_ifs at hpart with hempty
        · exact hsome part hpart
        · rcases List.mem_cons.mp hpart with rfl | hmem
          · simpa using hempty
          · exact hsome part hmem

/-! ### Ranks of placed items -/

theorem flatten_gatherRanks (items : List (Located β)) :
    (gatherRanks items).flatten = items := by
  fun_induction gatherRanks items with
  | case1 => rfl
  | case2 first others ih =>
      rw [List.flatten_cons, ih, List.cons_append, List.takeWhile_append_dropWhile]

theorem ne_nil_of_mem_gatherRanks {items rank : List (Located β)}
    (h : rank ∈ gatherRanks items) : rank ≠ [] := by
  fun_induction gatherRanks items with
  | case1 => cases h
  | case2 first others ih =>
      rcases List.mem_cons.mp h with rfl | hmem
      · exact List.cons_ne_nil _ _
      · exact ih hmem

omit [Scalar β] in
theorem orientRanks_perm (ranks : List (List (Located β))) (arcs : List Arc) :
    (orientRanks ranks arcs).Perm ranks := by
  unfold orientRanks
  dsimp only
  split_ifs
  · exact ranks.reverse_perm
  · exact List.Perm.refl _

theorem flatten_ranksOfCoordinates_perm (items : List (Located β))
    (arcs : List Arc) : (ranksOfCoordinates items arcs).flatten.Perm items := by
  have hsorted := (orientRanks_perm
    (gatherRanks (items.mergeSort Located.precedes)) arcs).flatten
  rw [flatten_gatherRanks] at hsorted
  exact hsorted.trans (List.mergeSort_perm items _)

theorem items_componentOfCoordinates (narrow : β → α) (unit : α)
    (items : List (Located β)) (arcs : List Arc) :
    (componentOfCoordinates narrow unit items arcs).items =
      (ranksOfCoordinates items arcs).flatten.map Located.vertex := by
  simp [componentOfCoordinates, Component.items, List.map_flatten,
    Function.comp_def]

theorem items_componentOfCoordinates_perm (narrow : β → α) (unit : α)
    (items : List (Located β)) (arcs : List Arc) :
    (componentOfCoordinates narrow unit items arcs).items.Perm
      (items.map Located.vertex) := by
  rw [items_componentOfCoordinates]
  exact (flatten_ranksOfCoordinates_perm items arcs).map Located.vertex

theorem groups_componentsOfCoordinates {narrow : β → α} {unit : α}
    {connected : List ℕ} {arcs : List Arc}
    {located : List (List (Located β))} {components : List (Component α)}
    (h : componentsOfCoordinates narrow unit connected arcs located =
      .ok components) : Groups components connected := by
  obtain ⟨⟨parts, seen⟩, hparts, hrest⟩ := bind_eq_ok_iff.mp h
  obtain ⟨hcounts, hperm, hsome⟩ :=
    placedParts_counts ⟨List.nodup_nil, List.nil_subset connected⟩ hparts
  rw [List.append_nil] at hperm
  dsimp only at hrest
  split_ifs at hrest with hlength
  cases hrest
  refine ⟨?_, ?_, ?_⟩
  · rw [List.flatMap_map]
    exact (List.Perm.flatMap_left parts fun part _ =>
      items_componentOfCoordinates_perm narrow unit part arcs).trans
        (hperm.symm.trans (hcounts.perm hlength))
  · intro component hmem hnil
    obtain ⟨part, hpart, rfl⟩ := List.mem_map.mp hmem
    have hperm := items_componentOfCoordinates_perm narrow unit part arcs
    rw [hnil] at hperm
    exact hsome part hpart (List.map_eq_nil_iff.mp hperm.nil_eq.symm)
  · intro component hmem rank hrank hnil
    obtain ⟨part, hpart, rfl⟩ := List.mem_map.mp hmem
    obtain ⟨located, hlocated, rfl⟩ := List.mem_map.mp hrank
    exact ne_nil_of_mem_gatherRanks
      ((orientRanks_perm _ arcs).subset hlocated) (List.map_eq_nil_iff.mp hnil)

/-! ### Ranks by longest paths -/

theorem map_fst_raiseLevels (arcs : List Arc) (levels : List (ℕ × ℕ)) :
    (raiseLevels arcs levels).map Prod.fst = levels.map Prod.fst := by
  rw [raiseLevels, List.map_map]
  rfl

theorem map_fst_foldl_raiseLevels (arcs : List Arc) (steps : List ℕ)
    (levels : List (ℕ × ℕ)) :
    (steps.foldl (fun levels _ => raiseLevels arcs levels) levels).map
      Prod.fst = levels.map Prod.fst := by
  induction steps generalizing levels with
  | nil => rfl
  | cons _ rest ih => rw [List.foldl_cons, ih, map_fst_raiseLevels]

/-- Sorting entries by their levels loses none of them. -/
theorem flatMap_filter_level_perm (bound : ℕ) {levels : List (ℕ × ℕ)}
    (h : ∀ entry ∈ levels, entry.2 < bound) :
    ((List.range bound).flatMap fun level =>
      levels.filter fun entry => entry.2 == level).Perm levels := by
  induction bound generalizing levels with
  | zero =>
      rw [List.eq_nil_iff_forall_not_mem.mpr fun entry hentry =>
        Nat.not_lt_zero _ (h entry hentry)]
      exact List.Perm.refl _
  | succ bound ih =>
      -- The entries below the highest level are those of the levels below it.
      have hlower : ∀ entry ∈ levels.filter (!·.2 == bound),
          entry.2 < bound := by
        intro entry hentry
        obtain ⟨hmem, hne⟩ := List.mem_filter.mp hentry
        have hlt := h entry hmem
        simp only [Bool.not_eq_true', beq_eq_false_iff_ne] at hne
        omega
      have hsame : (List.range bound).flatMap (fun level =>
          levels.filter fun entry => entry.2 == level) =
          (List.range bound).flatMap fun level =>
            (levels.filter (!·.2 == bound)).filter fun entry =>
              entry.2 == level := by
        refine List.flatMap_congr fun level hlevel => ?_
        have hlt := List.mem_range.mp hlevel
        rw [List.filter_filter]
        refine List.filter_congr fun entry _ => ?_
        by_cases hentry : entry.2 = level
        · simp [hentry, Nat.ne_of_lt hlt]
        · simp [hentry]
      rw [List.range_succ, List.flatMap_append, hsame, List.flatMap_singleton]
      exact ((ih hlower).append_right _).trans
        (List.perm_append_comm.trans (List.filter_append_perm _ levels))

theorem groups_longestPathComponent {connected : List ℕ} {arcs : List Arc}
    {sizes : List (Size α)} {spacing : Spacing α} (hsome : connected ≠ []) :
    Groups [longestPathComponent connected arcs sizes spacing] connected := by
  have hfst : ((connected.foldl (fun levels _ => raiseLevels arcs levels)
      (connected.map fun item => (item, 0))).map Prod.fst) = connected := by
    rw [map_fst_foldl_raiseLevels, List.map_map]
    exact List.map_id connected
  unfold longestPathComponent
  dsimp only
  generalize connected.foldl (fun levels _ => raiseLevels arcs levels)
    (connected.map fun item => (item, 0)) = levels at hfst ⊢
  generalize hdepth : (levels.map Prod.snd).foldl max 0 = depth
  have hlevel : ∀ entry ∈ levels, entry.2 < depth + 1 := by
    intro entry hentry
    have hdeepest : (0 :: levels.map Prod.snd).max? = some depth := by
      rw [← hdepth]
      exact List.max?_cons'
    exact Nat.lt_succ_of_le ((List.max?_eq_some_iff.mp hdeepest).2 _
      (List.mem_cons_of_mem 0 (List.mem_map_of_mem hentry)))
  generalize hranks : ((List.range (depth + 1)).map fun level =>
    (levels.filter fun entry => entry.2 == level).map Prod.fst) = ranks
  have hperm : ranks.flatten.Perm connected := by
    have hlevels := (flatMap_filter_level_perm (depth + 1) hlevel).map Prod.fst
    rw [List.map_flatMap, hfst, List.flatMap, hranks] at hlevels
    exact hlevels
  have hflatten : (ranks.filter (!·.isEmpty)).flatten = ranks.flatten :=
    List.flatten_filter_not_isEmpty
  refine ⟨?_, ?_, ?_⟩
  · rw [← hflatten] at hperm
    simpa [Component.items, List.map_flatten, Function.comp_def,
      List.zipIdx_map_fst] using hperm
  · intro component hmem hnil
    rw [List.mem_singleton.mp hmem, List.map_eq_nil_iff] at hnil
    rw [hnil] at hflatten
    rw [← hflatten] at hperm
    exact hsome hperm.nil_eq.symm
  · intro component hmem rank hrank hnil
    rw [List.mem_singleton.mp hmem] at hrank
    obtain ⟨items, hitems, rfl⟩ := List.mem_map.mp hrank
    have hne := (List.mem_filter.mp hitems).2
    rw [List.zipIdx_eq_nil_iff.mp (List.map_eq_nil_iff.mp hnil)] at hne
    cases hne

/-! ### All components -/

theorem mem_endpoints_iff {arcs : List Arc} {v : ℕ} :
    v ∈ endpoints arcs ↔ ∃ arc ∈ arcs, v = arc.source ∨ v = arc.target := by
  simp [endpoints]

theorem connectedItems_perm (arcs : List Arc) :
    (connectedItems arcs).Perm (endpoints arcs) :=
  List.mergeSort_perm _ _

/-- The connected items are ranked first, by the engine if its coordinates can be
used; the items without arcs follow. -/
theorem exists_ranked (engine : Engine α β) (arcs : List Arc)
    (sizes : List (Size α)) (spacing : Spacing α) :
    ∃ ranked : List (Component α), Groups ranked (connectedItems arcs) ∧
      (arcs ≠ [] → ∀ accepted,
        engineComponents engine (connectedItems arcs) arcs sizes spacing =
          .ok accepted → ranked = accepted) ∧
      components engine arcs sizes spacing =
        ranked.mergeSort startsFirst ++
          ((List.range sizes.length).filter
            (!(connectedItems arcs).contains ·)).map fun item =>
              [[(item, Scalar.zero)]] := by
  by_cases hempty : arcs = []
  · subst hempty
    have hnone : connectedItems [] = [] := (connectedItems_perm []).eq_nil
    exact ⟨[], hnone ▸ Groups.nil, fun hsome => absurd rfl hsome, rfl⟩
  · have hasked : ¬ arcs.isEmpty = true := mt List.isEmpty_iff.mp hempty
    unfold components
    dsimp only
    rw [if_neg hasked]
    cases hengine : engineComponents engine (connectedItems arcs) arcs sizes
        spacing with
    | ok accepted =>
        refine ⟨accepted, groups_componentsOfCoordinates hengine, ?_, rfl⟩
        intro _ other hother
        exact Except.ok.inj hother
    | error fault =>
        refine ⟨_, groups_longestPathComponent ?_, ?_, rfl⟩
        · obtain ⟨arc, harc⟩ := List.exists_mem_of_ne_nil arcs hempty
          have hsource := mem_endpoints_iff.mpr ⟨arc, harc, .inl rfl⟩
          exact List.ne_nil_of_mem
            ((connectedItems_perm arcs).symm.subset hsource)
        · intro _ other hother
          exact absurd hother (by simp)

theorem groups_components (engine : Engine α β) (arcs : List Arc)
    (sizes : List (Size α)) (spacing : Spacing α) :
    Groups (components engine arcs sizes spacing)
      (connectedItems arcs ++
        (List.range sizes.length).filter (!(connectedItems arcs).contains ·)) := by
  obtain ⟨ranked, hranked, -, hcomponents⟩ :=
    exists_ranked engine arcs sizes spacing
  rw [hcomponents]
  exact (hranked.of_perm (List.mergeSort_perm _ _) (List.Perm.refl _)).append
    (Groups.singles _ _)

/-- Whatever the engine answers, every box belongs to a component. -/
theorem exists_component_of_lt (engine : Engine α β) (arcs : List Arc)
    {sizes : List (Size α)} (spacing : Spacing α) {item : ℕ}
    (h : item < sizes.length) :
    ∃ component ∈ components engine arcs sizes spacing,
      item ∈ component.items := by
  apply (groups_components engine arcs sizes spacing).exists_component
  by_cases hconnected : item ∈ connectedItems arcs
  · exact List.mem_append_left _ hconnected
  · refine List.mem_append_right _ (List.mem_filter.mpr
      ⟨List.mem_range.mpr h, by simpa using hconnected⟩)

end Flowchart.Layered
