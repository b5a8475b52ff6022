import Flowchart.Proofs.Assembly
import Flowchart.Proofs.LayoutCoverage
import Flowchart.Proofs.Scopes

/-!
# Settled layouts

Groups are laid out one after the other, and each sees the layouts that are
there at its turn.  Since a group stands behind the groups around it, what it
contains has its final layout by then: once all groups are done, every layout
is the one that its group would get anew, and the box of everything has its
final size: that of its layout for a group with contents, and for all else the
one that its label or its title asks for.
-/

namespace Flowchart

/-- A group stands behind the group around it. -/
theorem Diagram.IsNested.mem_behind_of_parent {diagram : Diagram}
    (h : diagram.IsNested) {before behind : List Group} {group child : Group}
    (hsplit : diagram.groups = before ++ group :: behind)
    (hchild : child ∈ diagram.groups) (hparent : child.parent = some group.id) :
    child ∈ behind := by
  obtain ⟨i, hi⟩ := List.getElem?_of_mem hchild
  obtain ⟨j, hj, outer, houter, hid⟩ := h.exists_parent hi hparent
  have hids := h.groupIds_nodup
  rw [hsplit, List.map_append, List.map_cons] at hids
  have hnew := (List.nodup_cons.mp (List.nodup_middle.mp hids)).1
  rw [hsplit] at hi houter
  have hplace : before.length ≤ j := by
    by_contra hlt
    rw [List.getElem?_append_left (Nat.lt_of_not_le hlt)] at houter
    apply hnew
    rw [← hid]
    exact List.mem_append_left _
      (List.mem_map_of_mem (List.mem_of_getElem? houter))
  rw [List.getElem?_append_right (by omega)] at hi
  obtain ⟨k, hk⟩ : ∃ k, i - before.length = k + 1 :=
    ⟨i - before.length - 1, by omega⟩
  rw [hk, List.getElem?_cons_succ] at hi
  exact List.mem_of_getElem? hi

namespace Layout

variable {α β : Type}

theorem mem_of_mem_placeItems {items : List (Item α)}
    {positions : List (Point α)} {id : String} {box : Box α}
    (h : (id, box) ∈ (placeItems items positions).entries) :
    ∃ i : ℕ, items[i]? = some (id, box.size) ∧
      positions[i]? = some box.position := by
  obtain ⟨i, hi⟩ := List.getElem?_of_mem (Keyed.entries_ofList_subset _ h)
  obtain ⟨item, position, hitem, hposition, heq⟩ :=
    List.getElem?_zipWith_eq_some.mp hi
  obtain ⟨rfl, rfl⟩ := Prod.mk.inj heq
  exact ⟨i, hitem, hposition⟩

namespace Context

variable [Scalar α]

/-- The size that the thing of the given id has in a layout of its scope. -/
inductive HasSize (context : Context α β) (layouts : Keyed (GroupLayout α)) :
    String → Size α → Prop
  | node {node : Node} (hnode : node ∈ context.diagram.nodes) :
      context.HasSize layouts node.id
        (context.settings.node.nodeSize node.label.toList node.shape)
  | group {group : Group} (hgroup : group ∈ context.diagram.groups) :
      context.HasSize layouts group.id
        (context.groupSize layouts group.id group.title)

variable {engine : Layered.Engine α β} {settings : LayoutSettings α}
  {diagram : Diagram} {layouts : Keyed (GroupLayout α)} {id : String}
  {size : Size α}

theorem hasSize_of_nodeItem? {other : String}
    (h : (ofDiagram engine settings diagram).nodeItem? other =
      some (id, size)) :
    (ofDiagram engine settings diagram).HasSize layouts id size := by
  obtain ⟨found, hfound, heq⟩ := Option.map_eq_some_iff.mp h
  obtain ⟨rfl, rfl⟩ := Prod.mk.inj heq
  obtain ⟨node, hnode, heq⟩ := List.mem_map.mp
    (Keyed.entries_ofList_subset _ (Keyed.mem_entries_of_find? hfound))
  obtain ⟨rfl, rfl⟩ := Prod.mk.inj heq
  exact .node hnode

theorem hasSize_of_mem_groupItems (h : diagram.IsNested) {group : Group}
    (hmem : (id, size) ∈
      (ofDiagram engine settings diagram).groupItems layouts group) :
    (ofDiagram engine settings diagram).HasSize layouts id size := by
  rcases List.mem_append.mp hmem with hnode | hgroup
  · obtain ⟨other, -, hitem⟩ := List.mem_filterMap.mp hnode
    exact hasSize_of_nodeItem? hitem
  · obtain ⟨child, hchild, hitem⟩ := List.mem_filterMap.mp hgroup
    have hinside := (Diagram.mem_childGroups_iff.mp hchild).1
    obtain ⟨found, hfound, heq⟩ := Option.map_eq_some_iff.mp hitem
    obtain rfl := Option.some.inj ((h.group?_eq hinside).symm.trans hfound)
    obtain ⟨rfl, rfl⟩ := Prod.mk.inj heq
    exact .group hinside

theorem hasSize_of_mem_topItems
    (hmem : (id, size) ∈
      (ofDiagram engine settings diagram).topItems layouts) :
    (ofDiagram engine settings diagram).HasSize layouts id size := by
  rcases List.mem_append.mp hmem with hgroup | hnode
  · obtain ⟨group, htop, heq⟩ := List.mem_map.mp hgroup
    obtain ⟨rfl, rfl⟩ := Prod.mk.inj heq
    exact .group (Diagram.mem_childGroups_iff.mp htop).1
  · obtain ⟨node, -, hitem⟩ := List.mem_filterMap.mp hnode
    exact hasSize_of_nodeItem? hitem

/-- A group has no other size than that of its layout, or of an empty one. -/
theorem HasSize.eq_groupSize (h : diagram.IsNested) {group : Group}
    (hgroup : group ∈ diagram.groups)
    (hsize : (ofDiagram engine settings diagram).HasSize layouts group.id
      size) :
    size = (ofDiagram engine settings diagram).groupSize layouts group.id
      group.title := by
  generalize hid : group.id = id at hsize
  cases hsize with
  | node hnode => exact absurd hid.symm (h.node_id_ne_group_id hnode hgroup)
  | group hother => rw [h.group_eq hgroup hother hid]

theorem HasSize.eq_nodeSize (h : diagram.IsNested) {node : Node}
    (hnode : node ∈ diagram.nodes)
    (hsize : (ofDiagram engine settings diagram).HasSize layouts node.id
      size) :
    size = settings.node.nodeSize node.label.toList node.shape := by
  generalize hid : node.id = id at hsize
  cases hsize with
  | node hother =>
      rw [h.node_eq hnode hother hid]
      rfl
  | group hgroup => exact absurd hid (h.node_id_ne_group_id hnode hgroup)

/-- A group only sees the layouts of the groups directly inside. -/
theorem groupItems_congr {context : Context α β}
    {layouts others : Keyed (GroupLayout α)} {group : Group}
    (h : ∀ child ∈ context.diagram.childGroups (some group.id),
      others.find? child.id = layouts.find? child.id) :
    context.groupItems others group = context.groupItems layouts group := by
  rw [groupItems, groupItems]
  congr 1
  refine List.filterMap_congr fun child hchild => ?_
  rw [childItem?, childItem?]
  simp only [groupSize, h child hchild]

variable [Scalar β]

/-- The layouts of the groups behind are there before those in front, which
leave them as they are. -/
theorem exists_layoutGroups_behind {context : Context α β}
    {before behind : List Group} {layouts : Keyed (GroupLayout α)}
    (h : context.layoutGroups (before ++ behind) = .ok layouts) :
    ∃ inner, context.layoutGroups behind = .ok inner ∧
      ∀ id, id ∉ before.map Group.id →
        layouts.find? id = inner.find? id := by
  induction before generalizing layouts with
  | nil => exact ⟨layouts, h, fun _ _ => rfl⟩
  | cons group rest ih =>
      obtain ⟨between, hbetween, -⟩ := layoutGroups_cons h
      obtain ⟨inner, hinner, hkept⟩ := ih hbetween
      refine ⟨inner, hinner, ?_⟩
      intro id hid
      rw [List.map_cons, List.mem_cons, not_or] at hid
      rw [find?_layoutGroups_cons h hbetween hid.1, hkept id hid.2]

/-- In the end, every layout is what its group would get anew. -/
theorem layoutGroups_settled (h : diagram.IsNested)
    (hlayouts : (ofDiagram engine settings diagram).layoutGroups
      diagram.groups = .ok layouts)
    {group : Group} (hgroup : group ∈ diagram.groups)
    {layout : GroupLayout α} (hfound : layouts.find? group.id = some layout) :
    (ofDiagram engine settings diagram).layoutGroup group
      ((ofDiagram engine settings diagram).groupItems layouts group) =
        .ok layout := by
  obtain ⟨before, behind, hsplit⟩ := List.append_of_mem hgroup
  have hids := h.groupIds_nodup
  rw [hsplit] at hlayouts
  rw [hsplit, List.map_append, List.map_cons] at hids
  have hnew := (List.nodup_cons.mp (List.nodup_middle.mp hids)).1
  rw [List.mem_append, not_or] at hnew
  obtain ⟨own, hown, hfront⟩ := exists_layoutGroups_behind hlayouts
  obtain ⟨inner, hinner, hstep⟩ := layoutGroups_cons hown
  -- The groups inside stand behind, and neither this group nor one in front
  -- of it touches their layouts.
  have hinside : ∀ child ∈ diagram.childGroups (some group.id),
      layouts.find? child.id = inner.find? child.id := by
    intro child hchild
    obtain ⟨hmem, hparent⟩ := Diagram.mem_childGroups_iff.mp hchild
    have hbehind := List.mem_map_of_mem (f := Group.id)
      (h.mem_behind_of_parent hsplit hmem hparent)
    have hother : child.id ≠ group.id := by
      intro heq
      exact hnew.2 (heq ▸ hbehind)
    have hfree : child.id ∉ before.map Group.id := by
      intro hbefore
      exact (List.nodup_append.mp hids).2.2 child.id hbefore child.id
        (List.mem_cons_of_mem _ hbehind) rfl
    rw [hfront child.id hfree, find?_layoutGroups_cons hown hinner hother]
  rw [groupItems_congr hinside]
  rw [hfront group.id hnew.1] at hfound
  rcases hstep with ⟨-, rfl⟩ | ⟨-, laid, hlaid, rfl⟩
  · have hbehind : behind.Sublist diagram.groups := by
      rw [hsplit]
      exact (List.sublist_cons_self group behind).trans
        (List.sublist_append_right before _)
    obtain ⟨other, hother, hid, -⟩ := (ids_layoutGroups h hbehind hinner).2 _ _
      (Keyed.mem_entries_of_find? hfound)
    exact absurd (hid ▸ List.mem_map_of_mem hother) hnew.2
  · rw [Keyed.find?_insert, if_pos rfl] at hfound
    rw [hlaid, Option.some.inj hfound]

theorem mem_items_of_layoutGroup {context : Context α β} {group : Group}
    {items : List (Item α)} {layout : GroupLayout α}
    (h : context.layoutGroup group items = .ok layout) {box : Box α}
    (hbox : (id, box) ∈ layout.children.entries) : (id, box.size) ∈ items := by
  obtain ⟨placement, -, hresult⟩ := bind_eq_ok_iff.mp h
  cases hresult
  obtain ⟨i, hitem, -⟩ := mem_of_mem_placeItems hbox
  exact List.mem_of_getElem? hitem

theorem mem_items_of_layoutTop {context : Context α β} {boxes : Keyed (Box α)}
    (h : context.layoutTop layouts = .ok boxes) {box : Box α}
    (hbox : (id, box) ∈ boxes.entries) :
    (id, box.size) ∈ context.topItems layouts := by
  obtain ⟨placement, -, hresult⟩ := bind_eq_ok_iff.mp h
  cases hresult
  obtain ⟨i, hitem, -⟩ := mem_of_mem_placeItems hbox
  exact List.mem_of_getElem? hitem

end Context

end Layout

/-! ### Boxes in a whole layout -/

namespace Layout.Context

variable {α β : Type} [Scalar α] [Scalar β]

/-- The layout consists of these layouts of groups and of a top level that saw
them. -/
structure Yields (context : Context α β) (groups : Keyed (GroupLayout α))
    (layout : DiagramLayout α) : Prop where
  layoutGroups_eq : context.layoutGroups context.diagram.groups = .ok groups
  layoutTop_eq : context.layoutTop groups = .ok layout.topLevel
  find?_eq : ∀ id, layout.groups.find? id = groups.find? id

variable {engine : Layered.Engine α β} {settings : LayoutSettings α}
  {diagram : Diagram} {layout : DiagramLayout α}
  {groups : Keyed (GroupLayout α)}

theorem exists_yields (h : diagram.IsNested)
    (hlayout : diagram.layout engine settings = .ok layout) :
    ∃ groups, (ofDiagram engine settings diagram).Yields groups layout := by
  obtain ⟨groups, hgroups, htop, hreverse⟩ := Diagram.layout_eq_ok hlayout
  refine ⟨groups, hgroups, htop, ?_⟩
  intro id
  have hnodup := (h.covers hlayout).groups_nodup
  rw [hreverse, Keyed.ids_reverse, List.nodup_reverse] at hnodup
  rw [hreverse, Keyed.find?_reverse hnodup]

theorem Yields.layoutGroup_eq
    (hyields : (ofDiagram engine settings diagram).Yields groups layout)
    (h : diagram.IsNested) {group : Group} (hgroup : group ∈ diagram.groups)
    {inner : GroupLayout α}
    (hinner : layout.groups.find? group.id = some inner) :
    (ofDiagram engine settings diagram).layoutGroup group
      ((ofDiagram engine settings diagram).groupItems groups group) =
        .ok inner := by
  rw [hyields.find?_eq] at hinner
  exact layoutGroups_settled h hyields.layoutGroups_eq hgroup hinner

/-- In a layout of the diagram, the top level and every group with contents are
what they would be anew, once the layouts of the groups are known. -/
theorem exists_settled (h : diagram.IsNested)
    (hlayout : diagram.layout engine settings = .ok layout) :
    let context := ofDiagram engine settings diagram
    ∃ groups, context.layoutTop groups = .ok layout.topLevel ∧
      ∀ group ∈ diagram.groups, diagram.contentIds group ≠ [] →
        ∃ inner, layout.groups.find? group.id = some inner ∧
          context.layoutGroup group (context.groupItems groups group) =
            .ok inner := by
  obtain ⟨groups, hyields⟩ := exists_yields h hlayout
  refine ⟨groups, hyields.layoutTop_eq, ?_⟩
  intro group hgroup hcontents
  obtain ⟨inner, hinner⟩ :=
    (h.covers hlayout).exists_find?_group hgroup hcontents
  exact ⟨inner, hinner, hyields.layoutGroup_eq h hgroup hinner⟩

/-- Boxes have the sizes that things have in the end. -/
theorem Yields.hasSize_of_boxIn?
    (hyields : (ofDiagram engine settings diagram).Yields groups layout)
    (h : diagram.IsNested) {scope : Option String} {id : String}
    (hid : diagram.Holds scope id) {box : Box α}
    (hbox : layout.boxIn? id scope = some box) :
    (ofDiagram engine settings diagram).HasSize groups id box.size := by
  cases scope with
  | none =>
      exact hasSize_of_mem_topItems (mem_items_of_layoutTop hyields.layoutTop_eq
        (Keyed.mem_entries_of_find? hbox))
  | some outer =>
      obtain ⟨depth, -, haround⟩ := h.isForest.exists_depth hid
      cases haround with
      | inside hgroup =>
          obtain ⟨inner, hinner, hchild⟩ := Option.bind_eq_some_iff.mp hbox
          exact hasSize_of_mem_groupItems h (mem_items_of_layoutGroup
            (hyields.layoutGroup_eq h hgroup hinner)
            (Keyed.mem_entries_of_find? hchild))

end Layout.Context

namespace Diagram

open Layout

/-- The box of a group has the size of its own layout, if it has one, and that
of an empty group otherwise; the box of a node has the size that its label
needs. -/
theorem IsNested.size_boxIn? {α β : Type} [Scalar α] [Scalar β]
    {engine : Layered.Engine α β} {settings : LayoutSettings α}
    {diagram : Diagram} {layout : DiagramLayout α} (h : diagram.IsNested)
    (hlayout : diagram.layout engine settings = .ok layout) :
    (∀ group ∈ diagram.groups, ∃ box,
      layout.boxIn? group.id group.parent = some box ∧
        box.size = (layout.groups.find? group.id).elim
          (settings.emptyGroupSize group.title) GroupLayout.size) ∧
    ∀ node ∈ diagram.nodes, ∃ box,
      layout.boxIn? node.id node.group = some box ∧
        box.size = settings.node.nodeSize node.label.toList node.shape := by
  have hcovers := h.covers hlayout
  obtain ⟨groups, hyields⟩ := Context.exists_yields h hlayout
  refine ⟨?_, ?_⟩
  · intro group hgroup
    obtain ⟨box, hbox⟩ := hcovers.exists_boxIn?_group h hgroup
    refine ⟨box, hbox, ?_⟩
    have hsize := hyields.hasSize_of_boxIn? h (.group hgroup) hbox
    rw [hsize.eq_groupSize h hgroup, Context.groupSize, hyields.find?_eq]
    cases groups.find? group.id <;> rfl
  · intro node hnode
    obtain ⟨box, hbox⟩ := hcovers.exists_boxIn?_node h hnode
    refine ⟨box, hbox, ?_⟩
    exact (hyields.hasSize_of_boxIn? h (.node hnode) hbox).eq_nodeSize h hnode

/-- A group with contents and an empty one, both inside another group. -/
theorem size_boxIn?_nested :
    let source :=
      "graph TD\nsubgraph a\nsubgraph b\nA((x))\nend\nsubgraph c\nend\nend"
    let diagram := (parse source.toList).diagram
    ∃ layout : DiagramLayout Float32, diagram.IsNested ∧
      diagram.layout Layered.sugiyama .default = .ok layout ∧
        layout.groups.ids = ["a", "b"] ∧
        ∀ group ∈ diagram.groups, ∃ box,
          layout.boxIn? group.id group.parent = some box ∧
            box.size = (layout.groups.find? group.id).elim
              (LayoutSettings.default.emptyGroupSize group.title)
              GroupLayout.size := by
  intro source diagram
  have hnested : diagram.IsNested := isNested_parse source.toList
  have hsome : (diagram.layout Layered.sugiyama .default).toOption.isSome := by
    decide +kernel
  cases hlayout : diagram.layout Layered.sugiyama .default with
  | error fault => simp [hlayout, Except.toOption] at hsome
  | ok layout =>
      refine ⟨layout, hnested, rfl, ?_, (hnested.size_boxIn? hlayout).1⟩
      rw [(hnested.covers hlayout).groups_ids]
      decide +kernel

end Diagram

/-! ### Places in the whole drawing -/

namespace DiagramLayout

open Layout

/-- Where a thing lies when positions are taken from the corner of the whole
drawing: its position in its scope, moved along with the group around it. -/
inductive Places {α : Type} [Scalar α] (layout : DiagramLayout α)
    (diagram : Diagram) : String → Box α → Prop
  | top {id : String} {box : Box α} (hid : diagram.Holds none id)
      (hbox : layout.boxIn? id none = some box) :
      layout.Places diagram id box
  | inside {id group : String} {box outer : Box α}
      (hid : diagram.Holds (some group) id)
      (hbox : layout.boxIn? id (some group) = some box)
      (houter : layout.Places diagram group outer) :
      layout.Places diagram id ⟨outer.position.add box.position, box.size⟩

variable {α β : Type} [Scalar α] {layout : DiagramLayout α}
  {diagram : Diagram} {id : String} {box : Box α}

theorem Places.unique (h : diagram.IsForest)
    (hbox : layout.Places diagram id box) {other : Box α}
    (hother : layout.Places diagram id other) : other = box := by
  induction hbox generalizing other with
  | top hid hbox =>
      cases hother with
      | top _ hsecond => exact Option.some.inj (hsecond.symm.trans hbox)
      | inside hinside => exact absurd (h.holds_unique hid hinside) (by simp)
  | inside hid hbox houter ih =>
      cases hother with
      | top htop => exact absurd (h.holds_unique hid htop) (by simp)
      | inside hinside hsecond haround =>
          obtain rfl := Option.some.inj (h.holds_unique hid hinside)
          rw [ih haround, Option.some.inj (hsecond.symm.trans hbox)]

theorem Places.hasSize [Scalar β] {engine : Layered.Engine α β}
    {settings : LayoutSettings α} {groups : Keyed (GroupLayout α)}
    (hplaces : layout.Places diagram id box) (h : diagram.IsNested)
    (hyields : (Context.ofDiagram engine settings diagram).Yields groups
      layout) :
    (Context.ofDiagram engine settings diagram).HasSize groups id box.size := by
  cases hplaces with
  | top hid hbox => exact hyields.hasSize_of_boxIn? h hid hbox
  | inside hid hbox => exact (hyields.hasSize_of_boxIn? h hid hbox :)

/-- Everything in a diagram has its place, at whatever depth it lies. -/
theorem Covers.exists_places (hcovers : layout.Covers diagram)
    (h : diagram.IsNested) (hid : id ∈ diagram.ids) :
    ∃ box, layout.Places diagram id box := by
  obtain ⟨scope, hscope⟩ := Diagram.mem_ids_iff_exists_holds.mp hid
  have hbox : ∀ {scope id}, diagram.Holds scope id →
      ∃ box, layout.boxIn? id scope = some box := by
    rintro scope id (hgroup | hnode)
    · exact hcovers.exists_boxIn?_group h hgroup
    · exact hcovers.exists_boxIn?_node h hnode
  obtain ⟨depth, -, hdepth⟩ := h.isForest.exists_depth hscope
  clear hid
  -- By induction on the depth, from the thing to the group around it.
  induction hdepth generalizing id with
  | top =>
      obtain ⟨box, hfound⟩ := hbox hscope
      exact ⟨box, .top hscope hfound⟩
  | inside hgroup haround ih =>
      obtain ⟨box, hfound⟩ := hbox hscope
      obtain ⟨outer, houter⟩ := ih (.group hgroup)
      exact ⟨_, .inside hscope hfound houter⟩

end DiagramLayout

end Flowchart
