import Flowchart.Layout
import Flowchart.Proofs.Keyed
import Flowchart.Proofs.Nesting
import Flowchart.Proofs.Outcome

/-!
# A layout covers the diagram

Groups and the top level are laid out one by one, and each decides by itself
which items it holds.  For a nested diagram these decisions agree: a group has a
layout exactly if it has contents, the layout holds these contents, and the top
level holds everything else.  So every node and every group has a box in the
scope where it lies.
-/

namespace Flowchart

variable {α β : Type} [Scalar α] [Scalar β]

/-! ### Placements -/

theorem Layered.length_positions_place (direction : Direction)
    (sizes : List (Size α)) (spacing : Spacing α)
    (components : List (Layered.Component α)) :
    (LayeredGraph.place direction sizes spacing
      components).positions.length = sizes.length := by
  have hdownward : (placeDownward sizes spacing components).positions.length =
      sizes.length := by
    simp [placeDownward]
  unfold LayeredGraph.place
  cases direction <;>
    simp [Direction.isReversed, Direction.isHorizontal, flipRanks,
      Placement.transpose, hdownward]

theorem LayeredGraph.length_positions_layout
    {engine : Layered.Engine α β} {graph : LayeredGraph α}
    {direction : Direction} {spacing : Spacing α} {placement : Placement α}
    (h : graph.layout engine direction spacing = .ok placement) :
    placement.positions.length = graph.sizes.length := by
  unfold LayeredGraph.layout at h
  split at h
  next hempty =>
    cases h
    simp [List.isEmpty_iff.mp hempty]
  next =>
    generalize hsizes : (if direction.isHorizontal then
      graph.sizes.map Size.transpose else graph.sizes) = sizes at h
    have hlength : sizes.length = graph.sizes.length := by
      rw [← hsizes]
      split <;> simp
    dsimp only at h
    split at h
    next =>
      cases h
      rw [Layered.length_positions_place, hlength]
    next => cases h

namespace Layout

/-! ### The graph of a scope -/

omit [Scalar α] in
theorem sizes_addArc (graph : LayeredGraph α) (source target : ℕ) :
    (graph.addArc source target).sizes = graph.sizes := by
  unfold LayeredGraph.addArc
  dsimp only
  split_ifs <;> rfl

omit [Scalar α] in
theorem sizes_addLink (graph : LayeredGraph α) (source target : ℕ) :
    (addLink graph source target).sizes = graph.sizes := by
  unfold addLink
  split_ifs
  · rfl
  · exact sizes_addArc graph source target

omit [Scalar α] in
/-- The edges of a scope do not touch its boxes. -/
theorem sizes_scopeGraph
    {add : LayeredGraph α → ℕ → ℕ → LayeredGraph α}
    (hadd : ∀ graph source target,
      (add graph source target).sizes = graph.sizes)
    (containment : Containment) (scope : Option String)
    (items : List (Item α)) (edges : List Edge) :
    (scopeGraph add containment scope items edges).sizes =
      items.map Prod.snd := by
  have hfold : ∀ (ends : List (ℕ × ℕ)) (graph : LayeredGraph α),
      (ends.foldl (fun graph pair => add graph pair.1 pair.2) graph).sizes =
        graph.sizes := by
    intro ends
    induction ends with
    | nil => intro graph; rfl
    | cons pair rest ih =>
        intro graph
        rw [List.foldl_cons, ih, hadd]
  exact hfold _ ⟨items.map Prod.snd, []⟩

omit [Scalar α] in
theorem ids_placeItems {items : List (Item α)} {positions : List (Point α)}
    (hnodup : (items.map Prod.fst).Nodup)
    (hlength : positions.length = items.length) :
    (placeItems items positions).ids = items.map Prod.fst := by
  let entries := items.zipWith (fun item position =>
    (item.1, (⟨position, item.2⟩ : Box α))) positions
  have hids : entries.map Prod.fst = items.map Prod.fst := by
    simp only [entries, List.map_zipWith]
    have hzip : ((items.map Prod.fst).zip positions).map Prod.fst =
        items.map Prod.fst :=
      List.map_fst_zip (by simp [hlength])
    rw [← hzip, List.zip_map_left, List.map_map, List.map_zip_eq_zipWith]
    rfl
  have hofList : (Keyed.ofList entries).ids = entries.map Prod.fst :=
    Keyed.ids_ofList (by rwa [hids])
  rw [hids] at hofList
  exact hofList

/-! ### Items -/

namespace Context

variable (engine : Layered.Engine α β) (settings : LayoutSettings α)
  {diagram : Diagram}

omit [Scalar β] in
theorem exists_nodeItem? (h : diagram.IsNested) {id : String}
    (hid : id ∈ diagram.nodes.map Node.id) :
    ∃ item, (ofDiagram engine settings diagram).nodeItem? id = some item ∧
      item.1 = id := by
  let sizes := diagram.nodes.map fun node =>
    (node.id, settings.node.nodeSize node.label.toList node.shape)
  have hfst : sizes.map Prod.fst = diagram.nodes.map Node.id := by
    simp [sizes, Function.comp_def]
  have hids : (Keyed.ofList sizes).ids = diagram.nodes.map Node.id := by
    rw [Keyed.ids_ofList, hfst]
    rw [hfst]
    exact h.nodeIds_nodup
  obtain ⟨size, hsize⟩ : ∃ size, (Keyed.ofList sizes).find? id = some size := by
    apply Keyed.exists_find?_of_mem_ids
    · rw [hids]
      exact h.nodeIds_nodup
    · rwa [hids]
  refine ⟨(id, size), ?_, rfl⟩
  simp only [nodeItem?, ofDiagram]
  exact Option.map_eq_some_iff.mpr ⟨size, hsize, rfl⟩

omit [Scalar β] in
theorem map_fst_groupItems (h : diagram.IsNested) {group : Group}
    (hgroup : group ∈ diagram.groups) (layouts : Keyed (GroupLayout α)) :
    ((ofDiagram engine settings diagram).groupItems layouts group).map
      Prod.fst = diagram.contentIds group := by
  have hmembers : ∀ id ∈ group.members,
      ((ofDiagram engine settings diagram).nodeItem? id).map Prod.fst =
        some id := by
    intro id hid
    obtain ⟨node, hnode, -, rfl⟩ := (h.mem_members_iff hgroup).mp hid
    obtain ⟨item, hitem, hfst⟩ :=
      exists_nodeItem? engine settings h (List.mem_map_of_mem hnode)
    simp [hitem, hfst]
  have hchildren : ∀ child ∈ diagram.childGroups (some group.id),
      ((ofDiagram engine settings diagram).childItem? layouts child).map
        Prod.fst = some child.id := by
    intro child hchild
    have hfound := h.group?_eq (Diagram.mem_childGroups_iff.mp hchild).1
    simp [childItem?, ofDiagram, hfound]
  simp only [groupItems, Diagram.contentIds, List.map_append,
    List.map_filterMap]
  rw [List.filterMap_congr hmembers, List.filterMap_some]
  congr 1
  rw [← List.filterMap_eq_map]
  exact List.filterMap_congr hchildren

omit [Scalar β] in
theorem map_fst_topItems (h : diagram.IsNested)
    (layouts : Keyed (GroupLayout α)) :
    ((ofDiagram engine settings diagram).topItems layouts).map Prod.fst =
      diagram.topIds := by
  have hnodes : ∀ node ∈ diagram.topNodes,
      ((ofDiagram engine settings diagram).nodeItem? node.id).map Prod.fst =
        some node.id := by
    intro node hnode
    obtain ⟨item, hitem, hfst⟩ := exists_nodeItem? engine settings h
      (List.mem_map_of_mem (Diagram.mem_topNodes_iff.mp hnode).1)
    simp [hitem, hfst]
  simp only [topItems, Diagram.topIds, List.map_append, List.map_filterMap,
    List.map_map]
  congr 1
  rw [← List.filterMap_eq_map]
  exact List.filterMap_congr hnodes

/-! ### Groups and the top level -/

theorem ids_children_layoutGroup {context : Context α β} {group : Group}
    {items : List (Item α)} {layout : GroupLayout α}
    (hnodup : (items.map Prod.fst).Nodup)
    (h : context.layoutGroup group items = .ok layout) :
    layout.children.ids = items.map Prod.fst := by
  obtain ⟨placement, hplacement, hresult⟩ := bind_eq_ok_iff.mp h
  cases hresult
  apply ids_placeItems hnodup
  rw [List.length_map, LayeredGraph.length_positions_layout hplacement,
    sizes_scopeGraph sizes_addArc, List.length_map]

theorem ids_layoutTop {context : Context α β}
    {layouts : Keyed (GroupLayout α)} {boxes : Keyed (Box α)}
    (hnodup : ((context.topItems layouts).map Prod.fst).Nodup)
    (h : context.layoutTop layouts = .ok boxes) :
    boxes.ids = (context.topItems layouts).map Prod.fst := by
  obtain ⟨placement, hplacement, hresult⟩ := bind_eq_ok_iff.mp h
  cases hresult
  apply ids_placeItems hnodup
  rw [LayeredGraph.length_positions_layout hplacement,
    sizes_scopeGraph sizes_addLink, List.length_map]

/-- What a step of the group phase does: the groups behind come first, and a
group without items is passed over. -/
theorem layoutGroups_cons {context : Context α β} {group : Group}
    {others : List Group} {layouts : Keyed (GroupLayout α)}
    (h : context.layoutGroups (group :: others) = .ok layouts) :
    ∃ inner, context.layoutGroups others = .ok inner ∧
      ((context.groupItems inner group = [] ∧ layouts = inner) ∨
        (context.groupItems inner group ≠ [] ∧
          ∃ layout, context.layoutGroup group (context.groupItems inner group) =
              .ok layout ∧
            layouts = inner.insert group.id layout)) := by
  obtain ⟨inner, hinner, hstep⟩ := bind_eq_ok_iff.mp h
  refine ⟨inner, hinner, ?_⟩
  simp only [List.isEmpty_iff] at hstep
  split at hstep
  next hempty =>
    cases hstep
    exact Or.inl ⟨hempty, rfl⟩
  next hitems =>
    obtain ⟨layout, hlayout, hresult⟩ := bind_eq_ok_iff.mp hstep
    cases hresult
    exact Or.inr ⟨hitems, layout, hlayout, rfl⟩

/-- A step only touches the layout of its own group. -/
theorem find?_layoutGroups_cons {context : Context α β} {group : Group}
    {others : List Group} {layouts inner : Keyed (GroupLayout α)}
    (h : context.layoutGroups (group :: others) = .ok layouts)
    (hinner : context.layoutGroups others = .ok inner) {id : String}
    (hne : id ≠ group.id) : layouts.find? id = inner.find? id := by
  obtain ⟨found, hfound, hstep⟩ := layoutGroups_cons h
  rw [hinner] at hfound
  obtain rfl := Except.ok.inj hfound
  rcases hstep with ⟨-, rfl⟩ | ⟨-, layout, -, rfl⟩
  · rfl
  · rw [Keyed.find?_insert, if_neg hne]

variable {engine settings}

/-- The induction is on the groups that are left; the layouts of the groups
behind stand in the opposite order. -/
theorem ids_layoutGroups (h : diagram.IsNested) {groups : List Group}
    (hgroups : groups.Sublist diagram.groups)
    {layouts : Keyed (GroupLayout α)}
    (hlayouts : (ofDiagram engine settings diagram).layoutGroups groups =
      .ok layouts) :
    layouts.ids =
        ((groups.filter diagram.hasContents).map Group.id).reverse ∧
      ∀ id layout, (id, layout) ∈ layouts.entries →
        ∃ group ∈ groups, group.id = id ∧
          layout.children.ids = diagram.contentIds group := by
  induction groups generalizing layouts with
  | nil =>
      cases hlayouts
      simp [Keyed.ids]
  | cons group others ih =>
      have hgroup : group ∈ diagram.groups := hgroups.subset List.mem_cons_self
      obtain ⟨inner, hinner, hstep⟩ := layoutGroups_cons hlayouts
      obtain ⟨hids, hchildren⟩ :=
        ih ((List.sublist_cons_self group others).trans hgroups) hinner
      have hfst := map_fst_groupItems engine settings h hgroup inner
      have hcontents : (ofDiagram engine settings diagram).groupItems inner
          group = [] ↔ diagram.hasContents group = false := by
        rw [← Diagram.contentIds_eq_nil_iff, ← hfst, List.map_eq_nil_iff]
      rcases hstep with ⟨hempty, rfl⟩ | ⟨hitems, layout, hlayout, rfl⟩
      · have hnone := hcontents.mp hempty
        refine ⟨by simpa [List.filter_cons, hnone] using hids, ?_⟩
        intro id layout hentry
        obtain ⟨other, hother, hboth⟩ := hchildren id layout hentry
        exact ⟨other, List.mem_cons_of_mem group hother, hboth⟩
      · have hsome : diagram.hasContents group = true := by
          rw [← Bool.not_eq_false]
          exact mt hcontents.mpr hitems
        have hfree : group.id ∉ inner.ids := by
          have hnodup := h.groupIds_nodup.sublist (hgroups.map Group.id)
          rw [List.map_cons, List.nodup_cons] at hnodup
          rw [hids, List.mem_reverse]
          exact fun hmem =>
            hnodup.1 ((List.filter_sublist.map Group.id).subset hmem)
        refine ⟨?_, ?_⟩
        · rw [Keyed.ids_insert_of_not_mem layout hfree, hids]
          simp [hsome]
        · intro id other hentry
          rw [Keyed.entries_insert_of_not_mem layout hfree] at hentry
          rcases List.mem_append.mp hentry with hold | hnew
          · obtain ⟨entry, hentry, hboth⟩ := hchildren id other hold
            exact ⟨entry, List.mem_cons_of_mem group hentry, hboth⟩
          · cases List.mem_singleton.mp hnew
            refine ⟨group, List.mem_cons_self, rfl, ?_⟩
            rw [ids_children_layoutGroup _ hlayout, hfst]
            rw [hfst]
            exact h.contentIds_nodup hgroup

end Context

end Layout

/-! ### Coverage -/

/-- The groups with contents have layouts, in the order of the diagram, and
every scope holds exactly what lies directly in it, each once. -/
structure DiagramLayout.Covers (layout : DiagramLayout α)
    (diagram : Diagram) : Prop where
  groups_ids : layout.groups.ids =
    (diagram.groups.filter diagram.hasContents).map Group.id
  groups_nodup : layout.groups.ids.Nodup
  children_ids : ∀ group ∈ diagram.groups, ∀ inner,
    layout.groups.find? group.id = some inner →
      inner.children.ids = diagram.contentIds group ∧
        inner.children.ids.Nodup
  topLevel_ids : layout.topLevel.ids = diagram.topIds
  topLevel_nodup : layout.topLevel.ids.Nodup

namespace Diagram

open Layout

variable {engine : Layered.Engine α β} {settings : LayoutSettings α}
  {diagram : Diagram} {layout : DiagramLayout α}

theorem layout_eq_ok (h : diagram.layout engine settings = .ok layout) :
    ∃ groups,
      (Context.ofDiagram engine settings diagram).layoutGroups
          diagram.groups = .ok groups ∧
        (Context.ofDiagram engine settings diagram).layoutTop groups =
          .ok layout.topLevel ∧
        layout.groups = groups.reverse := by
  unfold Diagram.layout at h
  split at h
  next => cases h
  next =>
    obtain ⟨groups, hgroups, hrest⟩ :=
      bind_eq_ok_iff.mp (mapError_eq_ok_iff.mp h)
    obtain ⟨topLevel, htopLevel, hresult⟩ := bind_eq_ok_iff.mp hrest
    cases hresult
    exact ⟨groups, hgroups, htopLevel, rfl⟩

theorem IsNested.covers (h : diagram.IsNested)
    (hlayout : diagram.layout engine settings = .ok layout) :
    layout.Covers diagram := by
  obtain ⟨groups, hgroups, htopLevel, hreverse⟩ := layout_eq_ok hlayout
  obtain ⟨hids, hchildren⟩ :=
    Context.ids_layoutGroups h (List.Sublist.refl _) hgroups
  have hgroupsIds : layout.groups.ids =
      (diagram.groups.filter diagram.hasContents).map Group.id := by
    rw [hreverse, Keyed.ids_reverse, hids, List.reverse_reverse]
  have hgroupsNodup : layout.groups.ids.Nodup := by
    rw [hgroupsIds]
    exact h.groupIds_nodup.sublist (List.filter_sublist.map Group.id)
  have htopFst := Context.map_fst_topItems engine settings h groups
  have htopIds : layout.topLevel.ids = diagram.topIds := by
    rw [Context.ids_layoutTop _ htopLevel, htopFst]
    rw [htopFst]
    exact h.topIds_nodup
  refine ⟨hgroupsIds, hgroupsNodup, ?_, htopIds, ?_⟩
  · intro group hgroup inner hinner
    have hentry := (Keyed.find?_eq_some_iff hgroupsNodup).mp hinner
    rw [hreverse, Keyed.reverse, List.mem_reverse] at hentry
    obtain ⟨other, hother, hid, hcontents⟩ := hchildren _ _ hentry
    rw [h.group_eq hother hgroup hid] at hcontents
    rw [hcontents]
    exact ⟨rfl, h.contentIds_nodup hgroup⟩
  · rw [htopIds]
    exact h.topIds_nodup

end Diagram

namespace DiagramLayout.Covers

variable {layout : DiagramLayout α} {diagram : Diagram}

omit [Scalar α] in
theorem exists_boxIn?_top (h : layout.Covers diagram) {id : String}
    (hid : id ∈ diagram.topIds) : ∃ box, layout.boxIn? id none = some box := by
  rw [← h.topLevel_ids] at hid
  exact Keyed.exists_find?_of_mem_ids h.topLevel_nodup hid

omit [Scalar α] in
theorem exists_find?_group (h : layout.Covers diagram) {group : Group}
    (hgroup : group ∈ diagram.groups)
    (hcontents : diagram.contentIds group ≠ []) :
    ∃ inner, layout.groups.find? group.id = some inner := by
  have hsome : diagram.hasContents group = true := by
    rwa [← Bool.not_eq_false, ← Diagram.contentIds_eq_nil_iff]
  apply Keyed.exists_find?_of_mem_ids h.groups_nodup
  rw [h.groups_ids]
  exact List.mem_map_of_mem (List.mem_filter.mpr ⟨hgroup, hsome⟩)

omit [Scalar α] in
theorem exists_boxIn?_inside (h : layout.Covers diagram) {group : Group}
    (hgroup : group ∈ diagram.groups) {id : String}
    (hid : id ∈ diagram.contentIds group) :
    ∃ box, layout.boxIn? id (some group.id) = some box := by
  obtain ⟨inner, hinner⟩ :=
    h.exists_find?_group hgroup (List.ne_nil_of_mem hid)
  obtain ⟨hids, hnodup⟩ := h.children_ids group hgroup inner hinner
  rw [← hids] at hid
  obtain ⟨box, hbox⟩ := Keyed.exists_find?_of_mem_ids hnodup hid
  exact ⟨box, by simp [boxIn?, hinner, hbox]⟩

omit [Scalar α] in
theorem exists_boxIn?_group (h : layout.Covers diagram)
    (hnested : diagram.IsNested) {group : Group}
    (hgroup : group ∈ diagram.groups) :
    ∃ box, layout.boxIn? group.id group.parent = some box := by
  have hchild : group ∈ diagram.childGroups group.parent :=
    Diagram.mem_childGroups_iff.mpr ⟨hgroup, rfl⟩
  cases hparent : group.parent with
  | none =>
      rw [hparent] at hchild
      apply h.exists_boxIn?_top
      exact List.mem_append_left _ (List.mem_map_of_mem hchild)
  | some id =>
      obtain ⟨outer, houter, rfl⟩ :=
        hnested.exists_parent_of_mem hgroup hparent
      rw [hparent] at hchild
      apply h.exists_boxIn?_inside houter
      exact List.mem_append_right _ (List.mem_map_of_mem hchild)

omit [Scalar α] in
theorem exists_boxIn?_node (h : layout.Covers diagram)
    (hnested : diagram.IsNested) {node : Node}
    (hnode : node ∈ diagram.nodes) :
    ∃ box, layout.boxIn? node.id node.group = some box := by
  cases hgroup : node.group with
  | none =>
      apply h.exists_boxIn?_top
      apply List.mem_append_right
      exact List.mem_map_of_mem
        (Diagram.mem_topNodes_iff.mpr ⟨hnode, hgroup⟩)
  | some id =>
      obtain ⟨group, hmem, rfl⟩ := hnested.exists_group_of_node hnode hgroup
      apply h.exists_boxIn?_inside hmem
      apply List.mem_append_left
      exact (hnested.node_mem_members_iff hnode hmem).mpr hgroup

end DiagramLayout.Covers

end Flowchart
