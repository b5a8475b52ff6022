import Flowchart.Proofs.Assembly
import Flowchart.Proofs.Scopes

/-!
# Climbing ends

Climbing goes from a thing to the group around it, and on to the group around
that one.  It keeps no list of the groups that it has passed, so that it would
go round for ever where groups lie in each other.  In a forest every group
stands behind the one around it, so climbing ends after no more steps than there
are groups, and the item where it ends is the only one of the scope that is, or
encloses, the thing.
-/

namespace Flowchart

namespace Containment

/-- Climbing from an item and the group around it ends after the given number of
steps: with the item whose surroundings are the scope, or with nothing where no
group is left to climb to. -/
inductive Climbs (containment : Containment) (scope : Option String) :
    ℕ → String → Option String → Option String → Prop
  | found (item : String) : containment.Climbs scope 0 item scope (some item)
  | missed (item : String) (h : none ≠ scope) :
      containment.Climbs scope 0 item none none
  | up (item : String) {group : String} {steps : ℕ} {result : Option String}
      (h : some group ≠ scope)
      (hrest : containment.Climbs scope steps group
        (containment.find? group).join result) :
      containment.Climbs scope (steps + 1) item (some group) result

variable {containment : Containment} {scope around result : Option String}
  {item : String} {steps : ℕ}

/-- Any bound above the number of steps leaves room for the end of the climb. -/
theorem Climbs.climb_eq (h : containment.Climbs scope steps item around result)
    {fuel : ℕ} (hfuel : steps < fuel) :
    containment.climb scope fuel item around = result := by
  induction fuel generalizing steps item around with
  | zero => exact absurd hfuel (Nat.not_lt_zero steps)
  | succ fuel ih =>
      unfold climb
      cases h with
      | found => rw [if_pos rfl]
      | missed _ hmissed => rw [if_neg hmissed]
      | up _ hup hrest =>
          rw [if_neg hup]
          exact ih hrest (Nat.lt_of_succ_lt_succ hfuel)

/-- Climbing has one outcome. -/
theorem Climbs.result_eq {others : ℕ} {other : Option String}
    (h : containment.Climbs scope steps item around result)
    (hother : containment.Climbs scope others item around other) :
    result = other := by
  have hfirst : containment.climb scope (steps + others + 1) item around =
      result := h.climb_eq (by omega)
  exact hfirst.symm.trans (hother.climb_eq (by omega))

end Containment

namespace Diagram

variable {diagram : Diagram} {scope around : Option String} {id item : String}

theorem mem_ids_of_encloses (hitem : diagram.Encloses item id)
    (hscope : diagram.Holds scope item) : id ∈ diagram.ids := by
  rw [mem_ids_iff_exists_holds]
  rcases Relation.ReflTransGen.cases_head hitem with rfl | ⟨outer, hstep, -⟩
  · exact ⟨scope, hscope⟩
  · exact ⟨some outer, hstep⟩

namespace IsForest

/-- Every step leads to a group less deep.  The induction is on the depth. -/
theorem exists_climbs (h : diagram.IsForest) (scope : Option String)
    {depth : ℕ} (hdepth : diagram.AtDepth depth around) (id : String) :
    ∃ steps ≤ depth, ∃ result,
      diagram.containment.Climbs scope steps id around result := by
  induction hdepth generalizing id with
  | top =>
      by_cases hstop : none = scope
      · subst hstop
        exact ⟨0, Nat.le_refl _, some id, .found id⟩
      · exact ⟨0, Nat.le_refl _, none, .missed id hstop⟩
  | @inside group depth hgroup haround ih =>
      by_cases hstop : some group.id = scope
      · subst hstop
        exact ⟨0, Nat.zero_le _, some id, .found id⟩
      · obtain ⟨steps, hsteps, result, hclimbs⟩ := ih group.id
        have hfind : (diagram.containment.find? group.id).join = group.parent := by
          rw [h.find?_containment_eq_some_iff.mpr (.group hgroup),
            Option.join_some]
        rw [← hfind] at hclimbs
        exact ⟨steps + 1, Nat.succ_le_succ hsteps, result, .up id hstop hclimbs⟩

theorem climbs_itemIn? (h : diagram.IsForest) (scope : Option String)
    (hfind : diagram.containment.find? id = some around) :
    ∃ steps ≤ diagram.groups.length,
      diagram.containment.Climbs scope steps id around
        (diagram.containment.itemIn? scope id) := by
  obtain ⟨depth, hlength, hdepth⟩ :=
    h.exists_depth (h.find?_containment_eq_some_iff.mp hfind)
  obtain ⟨steps, hsteps, result, hclimbs⟩ := h.exists_climbs scope hdepth id
  have hroom : steps < diagram.containment.entries.length + 2 := by
    rw [h.entries_containment, List.length_append, List.length_map]
    omega
  have hresult : diagram.containment.itemIn? scope id = result := by
    rw [Containment.itemIn?, hfind]
    exact hclimbs.climb_eq hroom
  exact ⟨steps, Nat.le_trans hsteps hlength, hresult ▸ hclimbs⟩

/-- A group is no part of itself: what it holds lies deeper than what encloses
it. -/
theorem not_contains_self (h : diagram.IsForest) (id : String) :
    ¬ diagram.Contains (some id) id := by
  rintro ⟨item, hitem, hinside⟩
  obtain ⟨depth, -, hdepth⟩ := h.exists_depth hinside
  cases hdepth with
  | @inside group depth hgroup haround =>
      have hnot : ∀ other ≤ depth, ¬ diagram.AtDepth other (some group.id) := by
        intro other hle hother
        have hsame := h.atDepth_unique hother (.inside hgroup haround)
        omega
      rcases h.eq_or_higher_of_encloses hitem (.group hgroup) haround with
        rfl | ⟨higher, hlt, other, hother, hhigher⟩
      · have hself := h.holds_unique hinside (.group hgroup)
        exact hnot depth (Nat.le_refl depth) (hself ▸ haround)
      · have hself := h.holds_unique hother hinside
        exact hnot higher (Nat.le_of_lt hlt) (hself ▸ hhigher)

/-- Climbing from a thing ends, after no more steps than there are groups, with
the one item of the scope that is, or encloses, the thing.  There is none for
unknown ids, for things outside of the scope and for the scope itself. -/
theorem climbing_ends_at_item (h : diagram.IsForest) (scope : Option String)
    (id : String) :
    (id ∈ diagram.ids → ∃ around, ∃ steps ≤ diagram.groups.length,
      diagram.containment.find? id = some around ∧
        ∀ result, diagram.containment.itemIn? scope id = result ↔
          diagram.containment.Climbs scope steps id around result) ∧
    (∀ item, diagram.containment.itemIn? scope id = some item ↔
      diagram.Encloses item id ∧ diagram.Holds scope item) ∧
    (∀ item other, diagram.Encloses item id ∧ diagram.Holds scope item →
      diagram.Encloses other id ∧ diagram.Holds scope other → item = other) ∧
    (id ∉ diagram.ids → diagram.containment.itemIn? scope id = none) ∧
    (¬ diagram.Contains scope id →
      diagram.containment.itemIn? scope id = none) ∧
    diagram.containment.itemIn? (some id) id = none := by
  have houtside : ∀ around, ¬ diagram.Contains around id →
      diagram.containment.itemIn? around id = none := by
    intro around hnot
    rw [h.contains_iff_exists_itemIn?] at hnot
    exact Option.eq_none_iff_forall_ne_some.mpr fun item hitem => hnot ⟨item, hitem⟩
  refine ⟨?_, fun item => h.itemIn?_eq_some_iff, ?_, ?_, houtside scope,
    houtside (some id) (h.not_contains_self id)⟩
  · intro hid
    obtain ⟨around, haround⟩ := mem_ids_iff_exists_holds.mp hid
    have hfind := h.find?_containment_eq_some_iff.mpr haround
    obtain ⟨steps, hsteps, hclimbs⟩ := h.climbs_itemIn? scope hfind
    refine ⟨around, steps, hsteps, hfind, fun result => ⟨?_, fun hother => hclimbs.result_eq hother⟩⟩
    rintro rfl
    exact hclimbs
  · intro item other hitem hother
    rw [← h.itemIn?_eq_some_iff] at hitem hother
    exact Option.some.inj (hitem.symm.trans hother)
  · intro hunknown
    refine houtside scope fun ⟨item, hitem, hscope⟩ => hunknown ?_
    exact mem_ids_of_encloses hitem hscope

end IsForest

/-- From a node two groups deep, seen from the top level. -/
theorem climbing_ends_at_item_nested :
    let source := "graph TD\nsubgraph a\nsubgraph b\nA\nend\nend".toList
    let diagram := (parse source).diagram
    diagram.IsForest ∧ "A" ∈ diagram.ids ∧
      (∃ around, ∃ steps ≤ 2, diagram.containment.find? "A" = some around ∧
        diagram.containment.Climbs none steps "A" around (some "a")) ∧
      diagram.Encloses "a" "A" ∧ diagram.Holds none "a" := by
  intro source diagram
  have hforest : diagram.IsForest := (isNested_parse source).isForest
  have hid : "A" ∈ diagram.ids := by decide +kernel
  have hitem : diagram.containment.itemIn? none "A" = some "a" := by
    decide +kernel
  have hlength : diagram.groups.length = 2 := by decide +kernel
  obtain ⟨hends, hfinds, -⟩ := hforest.climbing_ends_at_item none "A"
  obtain ⟨around, steps, hsteps, hfind, hclimbs⟩ := hends hid
  rw [hlength] at hsteps
  exact ⟨hforest, hid,
    ⟨around, steps, hsteps, hfind, (hclimbs (some "a")).mp hitem⟩,
    (hfinds "a").mp hitem⟩

end Diagram

end Flowchart
