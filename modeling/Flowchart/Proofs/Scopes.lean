import Flowchart.Proofs.Keyed
import Flowchart.Proofs.Nesting
import Mathlib.Logic.Relation

/-!
# Scopes and what they contain

A scope holds the things directly inside it, and it contains whatever these
things are or enclose.  In a forest, climbing from a thing to the item that
stands for it in a scope finds exactly the one item of the scope that is, or
encloses, the thing.
-/

namespace Flowchart.Diagram

/-- The thing of the given id lies directly in the scope. -/
inductive Holds (diagram : Diagram) : Option String → String → Prop
  | group {group : Group} (hgroup : group ∈ diagram.groups) :
      diagram.Holds group.parent group.id
  | node {node : Node} (hnode : node ∈ diagram.nodes) :
      diagram.Holds node.group node.id

/-- The item is the thing itself or a group around it. -/
def Encloses (diagram : Diagram) (item id : String) : Prop :=
  Relation.ReflTransGen (fun inner outer => diagram.Holds (some outer) inner)
    id item

/-- The thing lies in the scope, no matter how deep. -/
def Contains (diagram : Diagram) (scope : Option String) (id : String) : Prop :=
  ∃ item, diagram.Encloses item id ∧ diagram.Holds scope item

variable {diagram : Diagram} {scope around : Option String}
  {id item outer : String}

theorem Encloses.refl (id : String) : diagram.Encloses id id :=
  Relation.ReflTransGen.refl

theorem Encloses.trans (h : diagram.Encloses item id)
    (houter : diagram.Encloses outer item) : diagram.Encloses outer id :=
  Relation.ReflTransGen.trans h houter

theorem Encloses.of_holds (h : diagram.Holds (some item) id) :
    diagram.Encloses item id :=
  Relation.ReflTransGen.single h

theorem encloses_iff_eq_or_contains :
    diagram.Encloses item id ↔ item = id ∨ diagram.Contains (some item) id :=
  Relation.ReflTransGen.cases_tail_iff _ _ _

theorem mem_ids_iff_exists_holds :
    id ∈ diagram.ids ↔ ∃ scope, diagram.Holds scope id := by
  constructor
  · intro hid
    rcases List.mem_append.mp hid with hgroup | hnode
    · obtain ⟨group, hmem, rfl⟩ := List.mem_map.mp hgroup
      exact ⟨group.parent, .group hmem⟩
    · obtain ⟨node, hmem, rfl⟩ := List.mem_map.mp hnode
      exact ⟨node.group, .node hmem⟩
  · rintro ⟨scope, hgroup | hnode⟩
    · exact List.mem_append_left _ (List.mem_map_of_mem hgroup)
    · exact List.mem_append_right _ (List.mem_map_of_mem hnode)

/-! ### Forests -/

theorem mem_containment_entries_iff :
    (id, scope) ∈ diagram.groups.map (fun group => (group.id, group.parent)) ++
        diagram.nodes.map (fun node => (node.id, node.group)) ↔
      diagram.Holds scope id := by
  rw [List.mem_append, List.mem_map, List.mem_map]
  constructor
  · rintro (⟨group, hgroup, heq⟩ | ⟨node, hnode, heq⟩)
    · obtain ⟨rfl, rfl⟩ := Prod.mk.inj heq
      exact .group hgroup
    · obtain ⟨rfl, rfl⟩ := Prod.mk.inj heq
      exact .node hnode
  · rintro (hgroup | hnode)
    · exact .inl ⟨_, hgroup, rfl⟩
    · exact .inr ⟨_, hnode, rfl⟩

namespace IsForest

theorem entries_containment (h : diagram.IsForest) :
    diagram.containment.entries =
      diagram.groups.map (fun group => (group.id, group.parent)) ++
        diagram.nodes.map (fun node => (node.id, node.group)) := by
  apply Keyed.entries_ofList
  simpa [Function.comp_def, ids] using h.ids_nodup

theorem find?_containment_eq_some_iff (h : diagram.IsForest) :
    diagram.containment.find? id = some scope ↔ diagram.Holds scope id := by
  have hnodup : diagram.containment.ids.Nodup := by
    rw [Keyed.ids, h.entries_containment]
    simpa [Function.comp_def, ids] using h.ids_nodup
  rw [Keyed.find?_eq_some_iff hnodup, h.entries_containment,
    mem_containment_entries_iff]

theorem holds_unique (h : diagram.IsForest) (hscope : diagram.Holds scope id)
    (haround : diagram.Holds around id) : scope = around := by
  rw [← h.find?_containment_eq_some_iff] at hscope haround
  exact Option.some.inj (hscope.symm.trans haround)

theorem encloses_total (h : diagram.IsForest) (hitem : diagram.Encloses item id)
    (houter : diagram.Encloses outer id) :
    diagram.Encloses outer item ∨ diagram.Encloses item outer :=
  Relation.ReflTransGen.total_of_right_unique
    (fun _ _ _ hfirst hsecond => Option.some.inj (h.holds_unique hfirst hsecond))
    hitem houter

theorem exists_depth (h : diagram.IsForest) (hid : diagram.Holds scope id) :
    ∃ depth ≤ diagram.groups.length, diagram.AtDepth depth scope := by
  cases hid with
  | group hgroup =>
      obtain ⟨depth, hdepth, haround⟩ := h.exists_depth_of_group hgroup
      exact ⟨depth, Nat.le_of_lt hdepth, haround⟩
  | node hnode => exact h.exists_depth_of_node hnode

theorem atDepth_unique (h : diagram.IsForest) {depth other : ℕ}
    (hdepth : diagram.AtDepth depth scope)
    (hother : diagram.AtDepth other scope) : depth = other := by
  generalize hsame : scope = around at hother
  induction hdepth generalizing other around with
  | top =>
      cases hother with
      | top => rfl
      | inside => exact absurd hsame (by simp)
  | inside hgroup haround ih =>
      cases hother with
      | top => exact absurd hsame (by simp)
      | inside hsecond hbelow =>
          obtain rfl := h.group_eq hgroup hsecond (Option.some.inj hsame)
          rw [ih _ rfl hbelow]

/-- A group around a thing lies higher up than the thing. -/
theorem eq_or_higher_of_encloses (h : diagram.IsForest)
    (hitem : diagram.Encloses item id) {depth : ℕ}
    (hid : diagram.Holds scope id) (hdepth : diagram.AtDepth depth scope) :
    item = id ∨ ∃ higher < depth, ∃ around,
      diagram.Holds around item ∧ diagram.AtDepth higher around := by
  induction hitem using Relation.ReflTransGen.head_induction_on
      generalizing depth scope with
  | refl => exact .inl rfl
  | head hstep hrest ih =>
      obtain rfl := h.holds_unique hid hstep
      cases hdepth with
      | inside hgroup haround =>
          right
          rcases ih (.group hgroup) haround with rfl | ⟨higher, hlt, hfound⟩
          · exact ⟨_, Nat.lt_succ_self _, _, .group hgroup, haround⟩
          · exact ⟨higher, Nat.lt_succ_of_lt hlt, hfound⟩

theorem eq_of_encloses_of_holds (h : diagram.IsForest)
    (hitem : diagram.Encloses item id) (hscope : diagram.Holds scope item)
    (hid : diagram.Holds scope id) : item = id := by
  obtain ⟨depth, -, hdepth⟩ := h.exists_depth hid
  rcases h.eq_or_higher_of_encloses hitem hid hdepth with
    heq | ⟨higher, hlt, around, haround, hhigher⟩
  · exact heq
  · obtain rfl := h.holds_unique hscope haround
    exact absurd (h.atDepth_unique hhigher hdepth) (Nat.ne_of_lt hlt)

theorem encloses_iff_of_holds_none (h : diagram.IsForest)
    (hid : diagram.Holds none id) : diagram.Encloses item id ↔ item = id := by
  constructor
  · intro hitem
    rcases Relation.ReflTransGen.cases_head hitem with heq | ⟨outer, hstep, -⟩
    · exact heq.symm
    · exact absurd (h.holds_unique hid hstep) (by simp)
  · rintro rfl
    exact .refl item

theorem encloses_iff_of_holds_some (h : diagram.IsForest)
    (hid : diagram.Holds (some outer) id) :
    diagram.Encloses item id ↔ item = id ∨ diagram.Encloses item outer := by
  constructor
  · intro hitem
    rcases Relation.ReflTransGen.cases_head hitem with heq | ⟨other, hstep, hrest⟩
    · exact .inl heq.symm
    · obtain rfl := Option.some.inj (h.holds_unique hid hstep)
      exact .inr hrest
  · rintro (rfl | hitem)
    · exact .refl item
    · exact (Encloses.of_holds hid).trans hitem

/-! ### Climbing -/

/-- Climbing stops at the one item of the scope that is, or encloses, the thing
where it starts.  The depth of that thing bounds the number of steps. -/
theorem climb_eq_some_iff (h : diagram.IsForest) {fuel depth : ℕ}
    (hid : diagram.Holds around id) (hdepth : diagram.AtDepth depth around)
    (hfuel : depth < fuel) :
    diagram.containment.climb scope fuel id around = some item ↔
      diagram.Encloses item id ∧ diagram.Holds scope item := by
  induction fuel generalizing id around depth with
  | zero => exact absurd hfuel (Nat.not_lt_zero depth)
  | succ fuel ih =>
      unfold Containment.climb
      by_cases hstop : around = scope
      · subst hstop
        rw [if_pos rfl, Option.some.injEq]
        constructor
        · rintro rfl
          exact ⟨.refl _, hid⟩
        · rintro ⟨hitem, hscope⟩
          exact (h.eq_of_encloses_of_holds hitem hscope hid).symm
      · have hne : ∀ other, other = id → ¬ diagram.Holds scope other := by
          rintro other rfl hscope
          exact hstop (h.holds_unique hid hscope)
        rw [if_neg hstop]
        cases hdepth with
        | top =>
            rw [h.encloses_iff_of_holds_none hid]
            constructor
            · intro hnone
              exact absurd hnone (by simp)
            · rintro ⟨heq, hscope⟩
              exact absurd hscope (hne item heq)
        | @inside group depth hgroup haround =>
            have hfind : diagram.containment.find? group.id =
                some group.parent :=
              h.find?_containment_eq_some_iff.mpr (.group hgroup)
            simp only [hfind, Option.join_some]
            rw [ih (.group hgroup) haround (Nat.lt_of_succ_lt_succ hfuel),
              h.encloses_iff_of_holds_some hid, or_and_right]
            constructor
            · exact .inr
            · rintro (⟨heq, hscope⟩ | hfound)
              · exact absurd hscope (hne item heq)
              · exact hfound

theorem itemIn?_eq_some_iff (h : diagram.IsForest) :
    diagram.containment.itemIn? scope id = some item ↔
      diagram.Encloses item id ∧ diagram.Holds scope item := by
  unfold Containment.itemIn?
  cases hfind : diagram.containment.find? id with
  | none =>
      have hunknown : ∀ around, ¬ diagram.Holds around id := by
        intro around hid
        rw [h.find?_containment_eq_some_iff.mpr hid] at hfind
        exact absurd hfind (by simp)
      constructor
      · intro hnone
        exact absurd hnone (by simp)
      · rintro ⟨hitem, hscope⟩
        rcases Relation.ReflTransGen.cases_head hitem with rfl | ⟨_, hstep, -⟩
        · exact absurd hscope (hunknown scope)
        · exact absurd hstep (hunknown _)
  | some around =>
      have hid := h.find?_containment_eq_some_iff.mp hfind
      obtain ⟨depth, hdepth, haround⟩ := h.exists_depth hid
      apply h.climb_eq_some_iff hid haround
      have hlength := congrArg List.length h.entries_containment
      rw [List.length_append, List.length_map, List.length_map] at hlength
      omega

theorem contains_iff_exists_itemIn? (h : diagram.IsForest) :
    diagram.Contains scope id ↔
      ∃ item, diagram.containment.itemIn? scope id = some item := by
  simp only [h.itemIn?_eq_some_iff, Contains]

theorem contains_top (h : diagram.IsForest) (hid : id ∈ diagram.ids) :
    diagram.Contains none id := by
  obtain ⟨scope, hscope⟩ := mem_ids_iff_exists_holds.mp hid
  obtain ⟨depth, -, hdepth⟩ := h.exists_depth hscope
  -- By induction on the depth, from the thing to the group around it.
  induction hdepth generalizing id with
  | top => exact ⟨id, .refl id, hscope⟩
  | @inside group depth hgroup haround ih =>
      obtain ⟨item, hitem, htop⟩ :=
        ih (List.mem_append_left _ (List.mem_map_of_mem hgroup)) (.group hgroup)
      exact ⟨item, (Encloses.of_holds hscope).trans hitem, htop⟩

end IsForest

end Flowchart.Diagram
