import Flowchart.Proofs.Assembly
import Flowchart.Proofs.Placements
import Flowchart.Proofs.SettledLayouts

/-!
# Groups hold what they contain

Over exact scalars, and with settings that a layout accepts, no size is
negative.  So the rectangle around the contents of a group holds every box, and
header and padding leave exactly this rectangle free.  A group is as large in
its own scope as in its layout, so that at every depth a thing stays within all
groups around it.
-/

namespace Flowchart

/-! ### Sizes -/

namespace LayoutSettings

/-- The default settings in exact numbers. -/
def exactDefault : LayoutSettings ℚ where
  inner := ⟨50, 60⟩
  outer := ⟨80, 100⟩
  groupPadding := 20
  headerHeight := 32
  node := ⟨8, 20, 32, 24, 80, 280, 4 / 5, 16⟩

theorem fault?_exactDefault : exactDefault.fault? = none := by
  decide +kernel

variable {settings : LayoutSettings ℚ}

theorem nonneg_of_mem_amounts (h : settings.fault? = none) {value : ℚ}
    (hmem : value ∈ settings.amounts.map Prod.snd) : 0 ≤ value := by
  unfold fault? at h
  split at h
  next => exact absurd h (by simp)
  next hamounts =>
    obtain ⟨entry, hentry, rfl⟩ := List.mem_map.mp hmem
    have hamount := List.find?_eq_none.mp hamounts entry hentry
    simpa [isAmount] using hamount

/-- No amount is negative, and diamonds do not collapse. -/
structure IsAccepted (settings : LayoutSettings ℚ) : Prop where
  inner : settings.inner.IsNonneg
  outer : settings.outer.IsNonneg
  groupPadding : 0 ≤ settings.groupPadding
  headerHeight : 0 ≤ settings.headerHeight
  charWidth : 0 ≤ settings.node.charWidth
  lineHeight : 0 ≤ settings.node.lineHeight
  paddingY : 0 ≤ settings.node.paddingY
  minWidth : 0 ≤ settings.node.minWidth
  maxWidth : 0 ≤ settings.node.maxWidth
  circleMargin : 0 ≤ settings.node.circleMargin
  diamondScale : 0 < settings.node.diamondScale

theorem isAccepted (h : settings.fault? = none) : settings.IsAccepted := by
  have hamount : ∀ value ∈ settings.amounts.map Prod.snd, 0 ≤ value :=
    fun value => nonneg_of_mem_amounts h
  simp only [amounts, List.map_cons, List.map_nil, List.forall_mem_cons] at hamount
  obtain ⟨hinnerNode, hinnerRank, houterNode, houterRank, hpadding, hheader,
    hchar, hline, -, hpaddingY, hmin, hmax, -, hcircle, -⟩ := hamount
  have hscale : 0 < settings.node.diamondScale := by
    unfold fault? at h
    split at h
    next => exact absurd h (by simp)
    next =>
      split_ifs at h with hwidths hscale
      simpa using hscale
  exact ⟨⟨hinnerNode, hinnerRank⟩, ⟨houterNode, houterRank⟩, hpadding, hheader,
    hchar, hline, hpaddingY, hmin, hmax, hcircle, hscale⟩

theorem titleWidth_nonneg (h : settings.IsAccepted) (title : String) :
    0 ≤ settings.titleWidth title := by
  have htitle : 0 ≤ (title.length : ℚ) * settings.node.charWidth :=
    mul_nonneg (Nat.cast_nonneg _) h.charWidth
  exact add_nonneg htitle (add_nonneg h.groupPadding h.groupPadding)

theorem plainSize_nonneg (h : settings.IsAccepted) (label : List Char) :
    (settings.node.plainSize label).IsNonneg where
  width := le_min (le_max_of_le_right h.minWidth) h.maxWidth
  height := add_nonneg (mul_nonneg (Nat.cast_nonneg _) h.lineHeight) h.paddingY

theorem nodeSize_nonneg (h : settings.IsAccepted) (label : List Char)
    (shape : Shape) : (settings.node.nodeSize label shape).IsNonneg := by
  have hplain := plainSize_nonneg h label
  cases shape with
  | diamond =>
      have hscale := h.diamondScale.le
      exact ⟨mul_nonneg hplain.width hscale, mul_nonneg hplain.height hscale⟩
  | circle =>
      have hside : 0 ≤ max (settings.node.plainSize label).width
          (settings.node.plainSize label).height + settings.node.circleMargin :=
        add_nonneg (le_max_of_le_left hplain.width) h.circleMargin
      exact ⟨hside, hside⟩
  | rectangle => exact hplain
  | stadium => exact hplain
  | rounded => exact hplain

theorem titleWidth_le_emptyGroupSize (settings : LayoutSettings ℚ)
    (title : String) :
    settings.titleWidth title ≤ (settings.emptyGroupSize title).width :=
  (le_max_left _ _).trans (le_max_right _ _)

theorem emptyGroupSize_nonneg (h : settings.IsAccepted) (title : String) :
    (settings.emptyGroupSize title).IsNonneg where
  width := (titleWidth_nonneg h title).trans
    (titleWidth_le_emptyGroupSize settings title)
  height := Scalar.zero_rat ▸ le_max_right _ _

end LayoutSettings

/-! ### Content areas -/

/-- In a group of the given size, padding and header leave room for the box. -/
structure LayoutSettings.LeavesRoom (settings : LayoutSettings ℚ)
    (size : Size ℚ) (box : Box ℚ) : Prop where
  left : settings.groupPadding ≤ box.position.x
  top : settings.groupPadding + settings.headerHeight ≤ box.position.y
  right : box.position.x + box.size.width + settings.groupPadding ≤ size.width
  bottom :
    box.position.y + box.size.height + settings.groupPadding ≤ size.height

/-- Header and padding move a box into the free area, and they count in the size
of the group. -/
theorem Point.Fits.leavesRoom {corner : Point ℚ} {size frame : Size ℚ}
    (h : corner.Fits size frame) (settings : LayoutSettings ℚ)
    (least : Size ℚ) :
    settings.LeavesRoom ((frame.pad settings.groupInsets).max least)
      ⟨corner.add settings.groupInsets.contentOrigin, size⟩ := by
  have hwidth : frame.width + settings.groupInsets.horizontal ≤
      ((frame.pad settings.groupInsets).max least).width := le_max_left _ _
  have hheight : frame.height + settings.groupInsets.vertical ≤
      ((frame.pad settings.groupInsets).max least).height := le_max_left _ _
  have hhorizontal : settings.groupInsets.horizontal =
      settings.groupPadding + settings.groupPadding := rfl
  have hvertical : settings.groupInsets.vertical =
      settings.groupPadding + settings.headerHeight + settings.groupPadding :=
    rfl
  have hx : (corner.add settings.groupInsets.contentOrigin).x =
      corner.x + settings.groupPadding := rfl
  have hy : (corner.add settings.groupInsets.contentOrigin).y =
      corner.y + (settings.groupPadding + settings.headerHeight) := rfl
  obtain ⟨hleft, htop, hright, hbottom⟩ := h
  constructor <;> dsimp only <;> linarith

/-- The layout is wide enough for the title and holds all of its boxes. -/
structure GroupLayout.IsSpacious (layout : GroupLayout ℚ)
    (settings : LayoutSettings ℚ) (title : String) : Prop where
  titleWidth_le : settings.titleWidth title ≤ layout.size.width
  height_nonneg : 0 ≤ layout.size.height
  leavesRoom : ∀ id box, (id, box) ∈ layout.children.entries →
    settings.LeavesRoom layout.size box

theorem GroupLayout.IsSpacious.isNonneg {layout : GroupLayout ℚ}
    {settings : LayoutSettings ℚ} {title : String}
    (h : layout.IsSpacious settings title) (hsettings : settings.IsAccepted) :
    layout.size.IsNonneg :=
  ⟨(LayoutSettings.titleWidth_nonneg hsettings title).trans h.titleWidth_le,
    h.height_nonneg⟩

namespace Layout.Context

variable {β : Type}

section Scope

variable (context : Context ℚ β)

variable [Scalar β]

/-- The items of a scope are laid out, whatever the engine answers, in a
rectangle that holds them. -/
theorem exists_layout_scopeGraph
    {add : LayeredGraph ℚ → ℕ → ℕ → LayeredGraph ℚ}
    (hadd : ∀ graph source target,
      (add graph source target).sizes = graph.sizes)
    (scope : Option String) {items : List (Item ℚ)}
    (hitems : ∀ item ∈ items, item.2.IsNonneg) (direction : Direction)
    {spacing : Spacing ℚ} (hspacing : spacing.IsNonneg) :
    ∃ placement, (scopeGraph add context.containment scope items
        context.diagram.edges).layout context.engine direction spacing =
          .ok placement ∧
      placement.Frames (items.map Prod.snd) := by
  have hsizes := sizes_scopeGraph hadd context.containment scope items
    context.diagram.edges
  rw [← hsizes]
  apply LayeredGraph.exists_layout_frames
  · rw [hsizes]
    intro size hsize
    obtain ⟨item, hitem, rfl⟩ := List.mem_map.mp hsize
    exact hitems item hitem
  · exact hspacing

/-- A group gets a layout that holds its items. -/
theorem exists_layoutGroup (h : context.settings.IsAccepted) (group : Group)
    {items : List (Item ℚ)} (hitems : ∀ item ∈ items, item.2.IsNonneg) :
    ∃ layout, context.layoutGroup group items = .ok layout ∧
      layout.IsSpacious context.settings group.title := by
  obtain ⟨placement, hplacement, hframes⟩ :=
    context.exists_layout_scopeGraph sizes_addArc (some group.id) hitems
      (context.diagram.directionOf group.id) h.inner
  refine ⟨_, bind_eq_ok_iff.mpr ⟨placement, hplacement, rfl⟩, ⟨?_, ?_, ?_⟩⟩
  · exact le_max_right _ _
  · exact Scalar.zero_rat ▸ le_max_right _ _
  · intro id box hbox
    obtain ⟨i, hitem, hposition⟩ := mem_of_mem_placeItems hbox
    rw [List.getElem?_map] at hposition
    obtain ⟨corner, hcorner, hmoved⟩ := Option.map_eq_some_iff.mp hposition
    have hsize : (items.map Prod.snd)[i]? = some box.size := by
      rw [List.getElem?_map, hitem]
      rfl
    have hroom := (hframes i corner box.size hcorner hsize).leavesRoom
      context.settings ⟨context.settings.titleWidth group.title, Scalar.zero⟩
    rwa [hmoved] at hroom

theorem exists_layoutTop (h : context.settings.IsAccepted)
    {layouts : Keyed (GroupLayout ℚ)}
    (hitems : ∀ item ∈ context.topItems layouts, item.2.IsNonneg) :
    ∃ boxes, context.layoutTop layouts = .ok boxes := by
  obtain ⟨placement, hplacement, -⟩ :=
    context.exists_layout_scopeGraph sizes_addLink none hitems
      context.diagram.direction h.outer
  exact ⟨_, bind_eq_ok_iff.mpr ⟨placement, hplacement, rfl⟩⟩

end Scope

variable {engine : Layered.Engine ℚ β} {settings : LayoutSettings ℚ}
  {diagram : Diagram} {layouts : Keyed (GroupLayout ℚ)}

theorem HasSize.isNonneg (h : settings.IsAccepted)
    (hlayouts : ∀ id layout, layouts.find? id = some layout →
      layout.size.IsNonneg) {id : String} {size : Size ℚ}
    (hsize : (ofDiagram engine settings diagram).HasSize layouts id size) :
    size.IsNonneg := by
  cases hsize with
  | node hnode => exact LayoutSettings.nodeSize_nonneg h _ _
  | @group group hgroup =>
      rw [groupSize]
      split
      next layout hfound => exact hlayouts group.id layout hfound
      next => exact LayoutSettings.emptyGroupSize_nonneg h _

/-- The induction is on the groups that are left; all layouts so far have sizes
to build on. -/
theorem exists_layoutGroups [Scalar β] (engine : Layered.Engine ℚ β)
    (hnested : diagram.IsNested) (h : settings.IsAccepted)
    (groups : List Group) :
    ∃ layouts, (ofDiagram engine settings diagram).layoutGroups groups =
        .ok layouts ∧
      ∀ id layout, layouts.find? id = some layout → layout.size.IsNonneg := by
  induction groups with
  | nil => exact ⟨{}, rfl, fun _ _ hfound => absurd hfound (by simp)⟩
  | cons group others ih =>
      obtain ⟨inner, hinner, hsizes⟩ := ih
      have hitems : ∀ item ∈ (ofDiagram engine settings diagram).groupItems
          inner group, item.2.IsNonneg :=
        fun item hitem => (hasSize_of_mem_groupItems hnested hitem).isNonneg h
          hsizes
      obtain ⟨layout, hlayout, hspacious⟩ :=
        (ofDiagram engine settings diagram).exists_layoutGroup h group hitems
      by_cases hempty : (ofDiagram engine settings diagram).groupItems inner
          group = []
      · refine ⟨inner, bind_eq_ok_iff.mpr ⟨inner, hinner, ?_⟩, hsizes⟩
        simp only [hempty, List.isEmpty_nil, if_true]
        rfl
      · refine ⟨inner.insert group.id layout,
          bind_eq_ok_iff.mpr ⟨inner, hinner, ?_⟩, ?_⟩
        · simp only [List.isEmpty_iff, hempty, if_false]
          exact bind_eq_ok_iff.mpr ⟨layout, hlayout, rfl⟩
        · intro id other hfound
          rw [Keyed.find?_insert] at hfound
          split_ifs at hfound
          · obtain rfl := Option.some.inj hfound
            exact hspacious.isNonneg h
          · exact hsizes id other hfound

end Layout.Context

/-! ### Boxes of the whole drawing -/

structure Bounds.Within (inner outer : Bounds ℚ) : Prop where
  left : outer.minX ≤ inner.minX
  top : outer.minY ≤ inner.minY
  right : inner.maxX ≤ outer.maxX
  bottom : inner.maxY ≤ outer.maxY

theorem Bounds.Within.refl (bounds : Bounds ℚ) : bounds.Within bounds :=
  ⟨le_rfl, le_rfl, le_rfl, le_rfl⟩

theorem Bounds.Within.trans {inner middle outer : Bounds ℚ}
    (h : inner.Within middle) (houter : middle.Within outer) :
    inner.Within outer :=
  ⟨houter.left.trans h.left, houter.top.trans h.top,
    h.right.trans houter.right, h.bottom.trans houter.bottom⟩

namespace Diagram.IsNested

open Layout

variable {β : Type} [Scalar β] {engine : Layered.Engine ℚ β}
  {settings : LayoutSettings ℚ} {diagram : Diagram}

/-- Over exact scalars, only settings keep a diagram from being laid out. -/
theorem exists_layout (h : diagram.IsNested) (engine : Layered.Engine ℚ β)
    (hsettings : settings.fault? = none) :
    ∃ layout, diagram.layout engine settings = .ok layout := by
  have haccepted := LayoutSettings.isAccepted hsettings
  obtain ⟨groups, hgroups, hsizes⟩ :=
    Context.exists_layoutGroups engine h haccepted diagram.groups
  obtain ⟨topLevel, htop⟩ :=
    (Context.ofDiagram engine settings diagram).exists_layoutTop haccepted
      fun item hitem => (Context.hasSize_of_mem_topItems hitem).isNonneg
        haccepted hsizes
  refine ⟨⟨groups.reverse, topLevel⟩, ?_⟩
  unfold Diagram.layout
  rw [hsettings]
  refine mapError_eq_ok_iff.mpr (bind_eq_ok_iff.mpr ⟨groups, hgroups, ?_⟩)
  exact bind_eq_ok_iff.mpr ⟨topLevel, htop, rfl⟩

variable {layout : DiagramLayout ℚ} {groups : Keyed (GroupLayout ℚ)}

theorem isSpacious_of_yields (h : diagram.IsNested)
    (hsettings : settings.IsAccepted)
    (hyields : (Context.ofDiagram engine settings diagram).Yields groups layout)
    {group : Group} (hgroup : group ∈ diagram.groups)
    {inner : GroupLayout ℚ}
    (hinner : layout.groups.find? group.id = some inner) :
    inner.IsSpacious settings group.title := by
  obtain ⟨layouts, hlayouts, hsizes⟩ :=
    Context.exists_layoutGroups engine h hsettings diagram.groups
  obtain rfl := Except.ok.inj (hlayouts.symm.trans hyields.layoutGroups_eq)
  have hlaid := hyields.layoutGroup_eq h hgroup hinner
  obtain ⟨laid, hlayout, hspacious⟩ :=
    (Context.ofDiagram engine settings diagram).exists_layoutGroup hsettings
      group fun item hitem =>
        (Context.hasSize_of_mem_groupItems h hitem).isNonneg hsettings hsizes
  obtain rfl := Except.ok.inj (hlayout.symm.trans hlaid)
  exact hspacious

/-- A thing stays within the group directly around it. -/
theorem exists_places_within (h : diagram.IsNested)
    (hsettings : settings.IsAccepted)
    (hyields : (Context.ofDiagram engine settings diagram).Yields groups layout)
    {id group : String} (hid : diagram.Holds (some group) id) {box : Box ℚ}
    (hbox : layout.Places diagram id box) :
    ∃ outer, layout.Places diagram group outer ∧
      box.bounds.Within outer.bounds := by
  cases hbox with
  | top htop =>
      exact absurd (h.isForest.holds_unique hid htop) (by simp)
  | @inside id around box outer haround hbox houter =>
      obtain rfl := Option.some.inj (h.isForest.holds_unique hid haround)
      refine ⟨outer, houter, ?_⟩
      obtain ⟨depth, -, hdepth⟩ := h.isForest.exists_depth hid
      cases hdepth with
      | @inside group depth hgroup =>
          obtain ⟨inner, hinner, hchild⟩ := Option.bind_eq_some_iff.mp hbox
          have hspacious := h.isSpacious_of_yields hsettings hyields hgroup hinner
          have hroom := hspacious.leavesRoom id box
            (Keyed.mem_entries_of_find? hchild)
          have hsize : outer.size = inner.size := by
            rw [(houter.hasSize h hyields).eq_groupSize h hgroup]
            rw [hyields.find?_eq] at hinner
            simp only [Context.groupSize, hinner]
          have hpadding := hsettings.groupPadding
          have hheader := hsettings.headerHeight
          obtain ⟨hleft, htop, hright, hbottom⟩ := hroom
          rw [← hsize] at hright hbottom
          constructor <;>
            dsimp only [Box.bounds, Bounds.ofTopLeft, Point.add] <;> linarith

/-- Over exact scalars, a diagram has a layout whatever coordinates the engine
returns.  Header and padding of a group leave room for every box inside, a group
is at least as wide as its title, and in the whole drawing everything lies
within whatever encloses it. -/
theorem layout_holds_contents (h : diagram.IsNested)
    (engine : Layered.Engine ℚ β) (hsettings : settings.fault? = none) :
    ∃ layout, diagram.layout engine settings = .ok layout ∧
      (∀ group ∈ diagram.groups, ∀ inner,
        layout.groups.find? group.id = some inner →
          settings.titleWidth group.title ≤ inner.size.width ∧
          ∀ id box, (id, box) ∈ inner.children.entries →
            settings.LeavesRoom inner.size box) ∧
      (∀ id ∈ diagram.ids, ∃! box, layout.Places diagram id box) ∧
      (∀ group ∈ diagram.groups, ∀ box, layout.Places diagram group.id box →
        settings.titleWidth group.title ≤ box.size.width) ∧
      ∀ id item box outer, diagram.Encloses item id →
        layout.Places diagram id box → layout.Places diagram item outer →
          box.bounds.Within outer.bounds := by
  have haccepted := LayoutSettings.isAccepted hsettings
  obtain ⟨layout, hlayout⟩ := h.exists_layout engine hsettings
  obtain ⟨groups, hyields⟩ := Context.exists_yields h hlayout
  refine ⟨layout, hlayout, ?_, ?_, ?_, ?_⟩
  · intro group hgroup inner hinner
    have hspacious := h.isSpacious_of_yields haccepted hyields hgroup hinner
    exact ⟨hspacious.titleWidth_le, hspacious.leavesRoom⟩
  · intro id hid
    obtain ⟨box, hbox⟩ := (h.covers hlayout).exists_places h hid
    exact ⟨box, hbox, fun _ hother => hbox.unique h.isForest hother⟩
  · intro group hgroup box hbox
    rw [(hbox.hasSize h hyields).eq_groupSize h hgroup, Context.groupSize]
    split
    next inner hinner =>
      rw [← hyields.find?_eq] at hinner
      exact (h.isSpacious_of_yields haccepted hyields hgroup
        hinner).titleWidth_le
    next =>
      exact LayoutSettings.titleWidth_le_emptyGroupSize settings group.title
  · intro id item box outer hitem hbox houter
    induction hitem using Relation.ReflTransGen.head_induction_on
        generalizing box with
    | refl =>
        rw [houter.unique h.isForest hbox]
        exact Bounds.Within.refl _
    | head hstep hrest ih =>
        obtain ⟨around, haround, hwithin⟩ :=
          h.exists_places_within haccepted hyields hstep hbox
        exact hwithin.trans (ih around haround)

end Diagram.IsNested

/-- A node in a group in another group, and an engine that puts every box into a
rank of its own. -/
theorem Diagram.layout_holds_nested_contents :
    let source := "graph TD\nsubgraph a\nsubgraph b\nA --> B\nend\nC\nend".toList
    let diagram := (parse source).diagram
    let settings := LayoutSettings.exactDefault
    let engine : Layered.Engine ℚ ℚ :=
      ⟨id, id, fun count _ _ => [(List.range count).map fun v => ⟨v, 0, v⟩]⟩
    (diagram.IsNested ∧ settings.fault? = none) ∧
    ∃ layout, diagram.layout engine settings = .ok layout ∧
      ∃ box outer, layout.Places diagram "A" box ∧
        layout.Places diagram "a" outer ∧ box.bounds.Within outer.bounds := by
  intro source diagram settings engine
  have hnested : diagram.IsNested := isNested_parse source
  have hsettings : settings.fault? = none := LayoutSettings.fault?_exactDefault
  have hitem : diagram.containment.itemIn? none "A" = some "a" := by
    decide +kernel
  have hencloses := (hnested.isForest.itemIn?_eq_some_iff.mp hitem).1
  obtain ⟨layout, hlayout, -, hplaces, -, hwithin⟩ :=
    hnested.layout_holds_contents engine hsettings
  obtain ⟨box, hbox, -⟩ := hplaces "A" (by decide +kernel)
  obtain ⟨outer, houter, -⟩ := hplaces "a" (by decide +kernel)
  exact ⟨⟨hnested, hsettings⟩, layout, hlayout, box, outer, hbox, houter,
    hwithin "A" "a" box outer hencloses hbox houter⟩

end Flowchart
