import Flowchart.Diagram
import Flowchart.Layout.Containment
import Mathlib.Data.List.Basic
import Mathlib.Data.List.Nodup

/-!
# Nested diagrams

What reading a text promises about the diagram: nodes and groups never share an
id, a group lists exactly the nodes that lie in it, and a group stands behind
the group around it.  Everything else about who lies where follows from this;
in particular, everything lies finitely many groups below the top level.
-/

namespace Flowchart.Diagram

def ids (diagram : Diagram) : List String :=
  diagram.groups.map Group.id ++ diagram.nodes.map Node.id

/-- The ids of the nodes that lie directly in the group. -/
def inside (diagram : Diagram) (group : String) : List String :=
  (diagram.nodes.filter (·.group = some group)).map Node.id

/-- Ids are distinct, members agree with the groups of the nodes, and a group
stands behind the one around it. -/
structure IsNested (diagram : Diagram) : Prop where
  ids_nodup : diagram.ids.Nodup
  members_perm : ∀ group ∈ diagram.groups,
    group.members.Perm (diagram.inside group.id)
  group_mem : ∀ node ∈ diagram.nodes, ∀ id, node.group = some id →
    id ∈ diagram.groups.map Group.id
  parent_mem : ∀ i group, diagram.groups[i]? = some group →
    ∀ id, group.parent = some id →
      id ∈ (diagram.groups.map Group.id).take i

def EdgesAttached (diagram : Diagram) : Prop :=
  ∀ edge ∈ diagram.edges,
    edge.source ∈ diagram.ids ∧ edge.target ∈ diagram.ids

theorem mem_inside_iff {diagram : Diagram} {group id : String} :
    id ∈ diagram.inside group ↔
      ∃ node ∈ diagram.nodes, node.group = some group ∧ node.id = id := by
  simp [inside, and_assoc]

/-- Ids are distinct, and a group stands behind the one around it, whatever
groups list as their members. -/
structure IsForest (diagram : Diagram) : Prop where
  ids_nodup : diagram.ids.Nodup
  group_mem : ∀ node ∈ diagram.nodes, ∀ id, node.group = some id →
    id ∈ diagram.groups.map Group.id
  parent_mem : ∀ i group, diagram.groups[i]? = some group →
    ∀ id, group.parent = some id →
      id ∈ (diagram.groups.map Group.id).take i

theorem IsNested.isForest {diagram : Diagram} (h : diagram.IsNested) :
    diagram.IsForest :=
  ⟨h.ids_nodup, h.group_mem, h.parent_mem⟩

namespace IsForest

variable {diagram : Diagram}

theorem groupIds_nodup (h : diagram.IsForest) :
    (diagram.groups.map Group.id).Nodup :=
  (List.nodup_append.mp h.ids_nodup).1

theorem group_eq (h : diagram.IsForest) {group other : Group}
    (hgroup : group ∈ diagram.groups) (hother : other ∈ diagram.groups)
    (hid : group.id = other.id) : group = other :=
  List.inj_on_of_nodup_map h.groupIds_nodup hgroup hother hid

theorem exists_group_of_node (h : diagram.IsForest)
    {node : Node} (hnode : node ∈ diagram.nodes)
    {id : String} (haround : node.group = some id) :
    ∃ group ∈ diagram.groups, group.id = id := by
  simpa using h.group_mem node hnode id haround

theorem exists_parent (h : diagram.IsForest) {i : ℕ} {group : Group}
    (hgroup : diagram.groups[i]? = some group)
    {id : String} (haround : group.parent = some id) :
    ∃ j < i, ∃ outer, diagram.groups[j]? = some outer ∧ outer.id = id := by
  have hmem := h.parent_mem i group hgroup id haround
  rw [List.mem_take_iff_getElem] at hmem
  obtain ⟨j, hj, hid⟩ := hmem
  have hlength : j < diagram.groups.length := by
    simp only [List.length_map] at hj
    omega
  refine ⟨j, by omega, diagram.groups[j], ?_, ?_⟩
  · exact List.getElem?_eq_getElem hlength
  · simpa using hid

end IsForest

namespace IsNested

variable {diagram : Diagram}

theorem nodeIds_nodup (h : diagram.IsNested) :
    (diagram.nodes.map Node.id).Nodup :=
  (List.nodup_append.mp h.ids_nodup).2.1

theorem groupIds_nodup (h : diagram.IsNested) :
    (diagram.groups.map Group.id).Nodup :=
  h.isForest.groupIds_nodup

theorem node_id_ne_group_id (h : diagram.IsNested)
    {node : Node} (hnode : node ∈ diagram.nodes)
    {group : Group} (hgroup : group ∈ diagram.groups) :
    node.id ≠ group.id := by
  intro heq
  have hdisjoint := (List.nodup_append.mp h.ids_nodup).2.2
  exact hdisjoint group.id (List.mem_map_of_mem hgroup)
    node.id (List.mem_map_of_mem hnode) heq.symm

theorem node_eq (h : diagram.IsNested) {node other : Node}
    (hnode : node ∈ diagram.nodes) (hother : other ∈ diagram.nodes)
    (hid : node.id = other.id) : node = other :=
  List.inj_on_of_nodup_map h.nodeIds_nodup hnode hother hid

theorem group_eq (h : diagram.IsNested) {group other : Group}
    (hgroup : group ∈ diagram.groups) (hother : other ∈ diagram.groups)
    (hid : group.id = other.id) : group = other :=
  h.isForest.group_eq hgroup hother hid

theorem inside_nodup (h : diagram.IsNested) (group : String) :
    (diagram.inside group).Nodup :=
  h.nodeIds_nodup.sublist (List.filter_sublist.map Node.id)

theorem members_nodup (h : diagram.IsNested) {group : Group}
    (hgroup : group ∈ diagram.groups) : group.members.Nodup :=
  (h.members_perm group hgroup).nodup_iff.mpr (h.inside_nodup group.id)

theorem mem_members_iff (h : diagram.IsNested) {group : Group}
    (hgroup : group ∈ diagram.groups) {id : String} :
    id ∈ group.members ↔
      ∃ node ∈ diagram.nodes, node.group = some group.id ∧ node.id = id := by
  rw [(h.members_perm group hgroup).mem_iff, mem_inside_iff]

theorem node_mem_members_iff (h : diagram.IsNested)
    {node : Node} (hnode : node ∈ diagram.nodes)
    {group : Group} (hgroup : group ∈ diagram.groups) :
    node.id ∈ group.members ↔ node.group = some group.id := by
  rw [h.mem_members_iff hgroup]
  constructor
  · rintro ⟨other, hother, haround, hid⟩
    rwa [h.node_eq hother hnode hid] at haround
  · intro haround
    exact ⟨node, hnode, haround, rfl⟩

theorem count_members (h : diagram.IsNested)
    {node : Node} (hnode : node ∈ diagram.nodes)
    {group : Group} (hgroup : group ∈ diagram.groups) :
    group.members.count node.id =
      if node.group = some group.id then 1 else 0 := by
  rw [(h.members_nodup hgroup).count]
  simp only [h.node_mem_members_iff hnode hgroup]

theorem exists_group_of_node (h : diagram.IsNested)
    {node : Node} (hnode : node ∈ diagram.nodes)
    {id : String} (haround : node.group = some id) :
    ∃ group ∈ diagram.groups, group.id = id :=
  h.isForest.exists_group_of_node hnode haround

theorem node_group_iff (h : diagram.IsNested)
    {node : Node} (hnode : node ∈ diagram.nodes) {id : String} :
    node.group = some id ↔
      ∃ group ∈ diagram.groups, group.id = id ∧ node.id ∈ group.members := by
  constructor
  · intro haround
    obtain ⟨group, hgroup, rfl⟩ := h.exists_group_of_node hnode haround
    exact ⟨group, hgroup, rfl,
      (h.node_mem_members_iff hnode hgroup).mpr haround⟩
  · rintro ⟨group, hgroup, rfl, hmember⟩
    exact (h.node_mem_members_iff hnode hgroup).mp hmember

theorem exists_parent (h : diagram.IsNested) {i : ℕ} {group : Group}
    (hgroup : diagram.groups[i]? = some group)
    {id : String} (haround : group.parent = some id) :
    ∃ j < i, ∃ outer, diagram.groups[j]? = some outer ∧ outer.id = id :=
  h.isForest.exists_parent hgroup haround

theorem exists_parent_of_mem (h : diagram.IsNested) {group : Group}
    (hgroup : group ∈ diagram.groups)
    {id : String} (haround : group.parent = some id) :
    ∃ outer ∈ diagram.groups, outer.id = id := by
  obtain ⟨i, hi⟩ := List.getElem?_of_mem hgroup
  obtain ⟨j, _, outer, houter, hid⟩ := h.exists_parent hi haround
  exact ⟨outer, List.mem_of_getElem? houter, hid⟩

end IsNested

/-! ### Contents -/

/-- The nodes and then the groups directly inside a group. -/
def contentIds (diagram : Diagram) (group : Group) : List String :=
  group.members ++ (diagram.childGroups (some group.id)).map Group.id

/-- The groups and then the nodes of the top level. -/
def topIds (diagram : Diagram) : List String :=
  (diagram.childGroups none).map Group.id ++ diagram.topNodes.map Node.id

/-- A node or a group lies directly inside the group. -/
def hasContents (diagram : Diagram) (group : Group) : Bool :=
  !group.members.isEmpty || !(diagram.childGroups (some group.id)).isEmpty

theorem contentIds_eq_nil_iff {diagram : Diagram} {group : Group} :
    diagram.contentIds group = [] ↔ diagram.hasContents group = false := by
  simp [contentIds, hasContents]

theorem mem_childGroups_iff {diagram : Diagram} {scope : Option String}
    {group : Group} :
    group ∈ diagram.childGroups scope ↔
      group ∈ diagram.groups ∧ group.parent = scope := by
  simp [childGroups]

theorem mem_topNodes_iff {diagram : Diagram} {node : Node} :
    node ∈ diagram.topNodes ↔ node ∈ diagram.nodes ∧ node.group = none := by
  simp [topNodes]

namespace IsNested

variable {diagram : Diagram}

theorem group?_eq (h : diagram.IsNested) {group : Group}
    (hgroup : group ∈ diagram.groups) :
    diagram.group? group.id = some group := by
  have hsome : (diagram.group? group.id).isSome := by
    simp only [group?, List.find?_isSome]
    exact ⟨group, hgroup, by simp⟩
  obtain ⟨found, hfound⟩ := Option.isSome_iff_exists.mp hsome
  have hid : found.id = group.id := by simpa using List.find?_some hfound
  rw [hfound, h.group_eq (List.mem_of_find?_eq_some hfound) hgroup hid]

theorem childIds_nodup (h : diagram.IsNested) (scope : Option String) :
    ((diagram.childGroups scope).map Group.id).Nodup :=
  h.groupIds_nodup.sublist (List.filter_sublist.map Group.id)

/-- Nothing lies twice in a group, since its nodes and its groups differ. -/
theorem contentIds_nodup (h : diagram.IsNested) {group : Group}
    (hgroup : group ∈ diagram.groups) : (diagram.contentIds group).Nodup := by
  refine List.nodup_append.mpr
    ⟨h.members_nodup hgroup, h.childIds_nodup _, ?_⟩
  intro id hmember other hother
  obtain ⟨node, hnode, -, rfl⟩ := (h.mem_members_iff hgroup).mp hmember
  obtain ⟨child, hchild, rfl⟩ := List.mem_map.mp hother
  exact h.node_id_ne_group_id hnode (mem_childGroups_iff.mp hchild).1

theorem topIds_nodup (h : diagram.IsNested) : diagram.topIds.Nodup := by
  refine List.nodup_append.mpr
    ⟨h.childIds_nodup none,
      h.nodeIds_nodup.sublist (List.filter_sublist.map Node.id), ?_⟩
  intro id hid other hother
  obtain ⟨group, hgroup, rfl⟩ := List.mem_map.mp hid
  obtain ⟨node, hnode, rfl⟩ := List.mem_map.mp hother
  exact (h.node_id_ne_group_id (mem_topNodes_iff.mp hnode).1
    (mem_childGroups_iff.mp hgroup).1).symm

end IsNested

/-! ### Depth -/

/-- The scope lies the given number of groups below the top level. -/
inductive AtDepth (diagram : Diagram) : ℕ → Option String → Prop
  | top : diagram.AtDepth 0 none
  | inside {group : Group} {depth : ℕ} (hgroup : group ∈ diagram.groups)
      (haround : diagram.AtDepth depth group.parent) :
      diagram.AtDepth (depth + 1) (some group.id)

namespace IsForest

variable {diagram : Diagram}

/-- Following parents from a group leads to the top level, past no more groups
than stand before it.  The induction is on the place of the group. -/
theorem exists_depth_of_getElem? (h : diagram.IsForest)
    {i : ℕ} {group : Group} (hgroup : diagram.groups[i]? = some group) :
    ∃ depth ≤ i, diagram.AtDepth depth group.parent := by
  induction i using Nat.strongRecOn generalizing group with
  | ind i ih =>
      cases hparent : group.parent with
      | none => exact ⟨0, Nat.zero_le i, .top⟩
      | some id =>
          obtain ⟨j, hj, outer, houter, rfl⟩ := h.exists_parent hgroup hparent
          obtain ⟨depth, hdepth, haround⟩ := ih j hj houter
          exact ⟨depth + 1, by omega,
            .inside (List.mem_of_getElem? houter) haround⟩

theorem exists_depth_of_group (h : diagram.IsForest) {group : Group}
    (hgroup : group ∈ diagram.groups) :
    ∃ depth < diagram.groups.length, diagram.AtDepth depth group.parent := by
  obtain ⟨i, hi⟩ := List.getElem?_of_mem hgroup
  obtain ⟨depth, hdepth, haround⟩ := h.exists_depth_of_getElem? hi
  have hlength := (List.getElem?_eq_some_iff.mp hi).1
  exact ⟨depth, by omega, haround⟩

theorem exists_depth_of_node (h : diagram.IsForest) {node : Node}
    (hnode : node ∈ diagram.nodes) :
    ∃ depth ≤ diagram.groups.length, diagram.AtDepth depth node.group := by
  cases hgroup : node.group with
  | none => exact ⟨0, Nat.zero_le _, .top⟩
  | some id =>
      obtain ⟨group, hmem, rfl⟩ := h.exists_group_of_node hnode hgroup
      obtain ⟨depth, hdepth, haround⟩ := h.exists_depth_of_group hmem
      exact ⟨depth + 1, by omega, .inside hmem haround⟩

end IsForest

namespace IsNested

variable {diagram : Diagram}

theorem exists_depth_of_group (h : diagram.IsNested) {group : Group}
    (hgroup : group ∈ diagram.groups) :
    ∃ depth < diagram.groups.length, diagram.AtDepth depth group.parent :=
  h.isForest.exists_depth_of_group hgroup

theorem exists_depth_of_node (h : diagram.IsNested) {node : Node}
    (hnode : node ∈ diagram.nodes) :
    ∃ depth ≤ diagram.groups.length, diagram.AtDepth depth node.group :=
  h.isForest.exists_depth_of_node hnode

end IsNested

end Flowchart.Diagram
