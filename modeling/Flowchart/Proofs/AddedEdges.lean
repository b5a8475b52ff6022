import Flowchart.Proofs.ContentAreas
import Flowchart.Proofs.EdgeScopes

/-!
# Added edges

What a scope does with an edge depends on the ends of the edge alone.  So an edge
that is added to a diagram is felt only by the scope that separates its ends,
and by the groups around that scope, where the size of the scope counts.  All
other groups keep their layouts, and an edge that no scope needs changes nothing
at all.
-/

namespace Flowchart

def Edge.ends (edge : Edge) : String × String :=
  (edge.source, edge.target)

namespace Diagram

/-- The diagram with other edges. -/
def withEdges (diagram : Diagram) (edges : List Edge) : Diagram :=
  { diagram with edges := edges }

/-- The diagram says nothing new with the edge: it joins nested things, or another
edge has the same ends. -/
def IsRedundant (diagram : Diagram) (edge : Edge) : Prop :=
  diagram.JoinsNested edge ∨ ∃ other ∈ diagram.edges, other.ends = edge.ends

variable {diagram : Diagram} {group outer id : String}

/-- Edges have no say in the direction of a group. -/
theorem directionOf_withEdges (edges : List Edge) :
    (diagram.withEdges edges).directionOf group = diagram.directionOf group := by
  have hown : ∀ fuel group, (diagram.withEdges edges).ownDirection? fuel group =
      diagram.ownDirection? fuel group := by
    intro fuel
    induction fuel with
    | zero => intro group; rfl
    | succ fuel ih =>
        intro group
        rw [ownDirection?, ownDirection?]
        simp only [ih]
        rfl
  rw [directionOf, hown]
  rfl

theorem Contains.of_holds (h : diagram.Contains (some group) id)
    (hgroup : diagram.Holds (some outer) group) :
    diagram.Contains (some outer) id := by
  obtain ⟨item, hitem, hholds⟩ := h
  exact ⟨group, hitem.trans (.of_holds hholds), hgroup⟩

theorem IsForest.not_separates_of_not_contains (h : diagram.IsForest)
    {edge : Edge} {scope : Option String}
    (hoff : ¬ (diagram.Contains scope edge.source ∧
      diagram.Contains scope edge.target)) :
    ¬ diagram.Separates scope edge := by
  intro hseparates
  have hinnermost := h.isInnermost_of_separates hseparates
  exact hoff ⟨hinnermost.contains_source, hinnermost.contains_target⟩

end Diagram

namespace Layout

variable {α β : Type}

/-! ### The graph of a scope with more edges -/

/-- An arc is passed over if it is there already or makes no sense. -/
theorem addIn_eq_self {scope : Option String} {graph : LayeredGraph α}
    {source target : ℕ} (h : HasArc scope graph source target) :
    addIn scope graph source target = graph := by
  have harc : ⟨source, target⟩ ∈ graph.arcs →
      graph.addArc source target = graph := by
    intro hmem
    simp only [LayeredGraph.addArc]
    split_ifs with hvalid hcontains
    · rfl
    · rfl
    · exact absurd (List.contains_iff_mem.mpr hmem) hcontains
  cases scope with
  | none =>
      rw [addIn, addLink]
      split_ifs with hreverse
      · rfl
      · rcases h with hmem | ⟨-, hmem⟩
        · exact harc hmem
        · exact absurd (List.contains_iff_mem.mpr hmem) hreverse
  | some _ =>
      rcases h with hmem | ⟨hscope, -⟩
      · exact harc hmem
      · exact absurd hscope (by simp)

theorem endsIn?_congr {containment : Containment} {scope : Option String}
    {items : List (Item α)} {edge other : Edge} (h : other.ends = edge.ends) :
    endsIn? containment scope items other =
      endsIn? containment scope items edge := by
  obtain ⟨hsource, htarget⟩ := Prod.mk.inj h
  rw [endsIn?, hsource, htarget, endsIn?]

theorem scopeGraph_congr {containment : Containment} {scope : Option String}
    {items : List (Item α)} {add : LayeredGraph α → ℕ → ℕ → LayeredGraph α}
    {edges others : List Edge} (h : others.map Edge.ends = edges.map Edge.ends) :
    scopeGraph add containment scope items others =
      scopeGraph add containment scope items edges := by
  let ofEnds (ends : String × String) :=
    endsIn? containment scope items ⟨ends.1, ends.2, none, default⟩
  have hends : ∀ edges : List Edge,
      edges.filterMap (endsIn? containment scope items) =
        (edges.map Edge.ends).filterMap ofEnds := by
    intro edges
    rw [List.filterMap_map]
    rfl
  rw [scopeGraph, hends, h, ← hends, scopeGraph]

/-- An edge with the ends of another one makes no difference behind it. -/
theorem scopeGraph_of_repeated {containment : Containment}
    {scope : Option String} {items : List (Item α)} {edges : List Edge}
    {edge other : Edge} (hother : other ∈ edges) (h : other.ends = edge.ends) :
    scopeGraph (addIn scope) containment scope items (edges ++ [edge]) =
      scopeGraph (addIn scope) containment scope items edges := by
  rw [scopeGraph_append]
  cases hends : endsIn? containment scope items edge with
  | none => rw [List.filterMap_cons_none hends, List.filterMap_nil]; rfl
  | some ends =>
      obtain ⟨i, j⟩ := ends
      rw [List.filterMap_cons_some hends, List.filterMap_nil, List.foldl_cons,
        List.foldl_nil]
      by_cases hloop : i = j
      · subst hloop
        exact addIn_self scope _ i
      · have hsame : endsIn? containment scope items other = some (i, j) := by
          rw [endsIn?_congr h, hends]
        exact addIn_eq_self (hasArc_scopeGraph_of_mem hother hsame hloop)

namespace Context

variable [Scalar α] [Scalar β] {engine : Layered.Engine α β}
  {settings : LayoutSettings α} {diagram : Diagram} {edges others : List Edge}

/-! ### Two lists of edges in one diagram -/

/-- For the scope it makes no difference which of the two lists has the edges. -/
def Agree (context : Context α β) (scope : Option String)
    (edges others : List Edge) : Prop :=
  ∀ layouts, context.graphIn layouts scope others =
    context.graphIn layouts scope edges

omit [Scalar β] in
theorem groupItems_withEdges (layouts : Keyed (GroupLayout α)) (group : Group) :
    (ofDiagram engine settings (diagram.withEdges edges)).groupItems layouts
      group = (ofDiagram engine settings diagram).groupItems layouts group :=
  rfl

theorem layoutGroup_withEdges {group : Group}
    (hfound : diagram.group? group.id = some group) (edges : List Edge)
    (layouts : Keyed (GroupLayout α)) :
    (ofDiagram engine settings (diagram.withEdges edges)).layoutGroup group
        ((ofDiagram engine settings diagram).groupItems layouts group) = do
      let placement ←
        ((ofDiagram engine settings diagram).graphIn layouts (some group.id)
          edges).layout engine (diagram.directionOf group.id) settings.inner
      let insets := settings.groupInsets
      return {
        size := (placement.size.pad insets).max
          ⟨settings.titleWidth group.title, Scalar.zero⟩
        children := placeItems
          ((ofDiagram engine settings diagram).scopeItems layouts
            (some group.id))
          (placement.positions.map fun position =>
            position.add insets.contentOrigin) } := by
  rw [← Diagram.directionOf_withEdges edges]
  have hfound' : (ofDiagram engine settings
      (diagram.withEdges edges)).diagram.group? group.id = some group := hfound
  exact Context.layoutGroup_eq hfound' layouts

theorem Agree.layoutGroup_eq {group : Group}
    (h : (ofDiagram engine settings diagram).Agree (some group.id) edges others)
    (hfound : diagram.group? group.id = some group)
    (layouts : Keyed (GroupLayout α)) :
    (ofDiagram engine settings (diagram.withEdges others)).layoutGroup group
        ((ofDiagram engine settings diagram).groupItems layouts group) =
      (ofDiagram engine settings (diagram.withEdges edges)).layoutGroup group
        ((ofDiagram engine settings diagram).groupItems layouts group) := by
  rw [layoutGroup_withEdges hfound, layoutGroup_withEdges hfound, h layouts]

theorem layoutTop_withEdges (edges : List Edge)
    (layouts : Keyed (GroupLayout α)) :
    (ofDiagram engine settings (diagram.withEdges edges)).layoutTop layouts = do
      let placement ←
        ((ofDiagram engine settings diagram).graphIn layouts none edges).layout
          engine diagram.direction settings.outer
      return placeItems
        ((ofDiagram engine settings diagram).scopeItems layouts none)
        placement.positions :=
  rfl

theorem Agree.layoutTop_eq
    (h : (ofDiagram engine settings diagram).Agree none edges others)
    (layouts : Keyed (GroupLayout α)) :
    (ofDiagram engine settings (diagram.withEdges others)).layoutTop layouts =
      (ofDiagram engine settings (diagram.withEdges edges)).layoutTop
        layouts := by
  rw [layoutTop_withEdges, layoutTop_withEdges, h layouts]

/-- The groups are laid out alike if each of them agrees. -/
theorem layoutGroups_congr (hnested : diagram.IsNested)
    (h : ∀ id, (ofDiagram engine settings diagram).Agree (some id) edges others)
    {groups : List Group} (hgroups : groups ⊆ diagram.groups) :
    (ofDiagram engine settings (diagram.withEdges others)).layoutGroups groups =
      (ofDiagram engine settings (diagram.withEdges edges)).layoutGroups
        groups := by
  induction groups with
  | nil => rfl
  | cons group rest ih =>
      have hfound := hnested.group?_eq (hgroups List.mem_cons_self)
      rw [layoutGroups, layoutGroups,
        ih fun _ hmem => hgroups (List.mem_cons_of_mem group hmem)]
      refine bind_congr fun layouts => ?_
      have hgroup := (h group.id).layoutGroup_eq hfound layouts
      simp only [groupItems_withEdges, hgroup]
      rfl

/-- A set of groups that agree keeps its layouts, provided that it has with a
group also the groups inside. -/
theorem find?_layoutGroups_eq (hnested : diagram.IsNested)
    (kept : String → Prop)
    (hinside : ∀ group ∈ diagram.groups, ∀ outer,
      group.parent = some outer → kept outer → kept group.id)
    (hagree : ∀ id, kept id →
      (ofDiagram engine settings diagram).Agree (some id) edges others)
    {groups : List Group} (hgroups : groups ⊆ diagram.groups)
    {before after : Keyed (GroupLayout α)}
    (hbefore : (ofDiagram engine settings
      (diagram.withEdges edges)).layoutGroups groups = .ok before)
    (hafter : (ofDiagram engine settings
      (diagram.withEdges others)).layoutGroups groups = .ok after)
    {id : String} (hid : kept id) : after.find? id = before.find? id := by
  induction groups generalizing before after id with
  | nil =>
      cases hbefore
      cases hafter
      rfl
  | cons group rest ih =>
      obtain ⟨inner, hinner, hstep⟩ := layoutGroups_cons hbefore
      obtain ⟨inner', hinner', hstep'⟩ := layoutGroups_cons hafter
      have hrest : ∀ id, kept id → inner'.find? id = inner.find? id := by
        intro id
        exact ih (fun _ hmem => hgroups (List.mem_cons_of_mem group hmem))
          hinner hinner'
      rw [groupItems_withEdges] at hstep hstep'
      by_cases hsame : id = group.id
      · subst hsame
        have hgroup := hgroups List.mem_cons_self
        -- The groups inside are kept too, so that they have the same sizes.
        have hitems : (ofDiagram engine settings diagram).groupItems inner'
            group = (ofDiagram engine settings diagram).groupItems inner
              group := by
          refine groupItems_congr fun child hchild => ?_
          obtain ⟨hmem, hparent⟩ := Diagram.mem_childGroups_iff.mp hchild
          exact hrest child.id (hinside child hmem group.id hparent hid)
        have hlaid := (hagree group.id hid).layoutGroup_eq
          (hnested.group?_eq hgroup) inner
        rw [hitems] at hstep'
        rcases hstep with ⟨hempty, rfl⟩ | ⟨hsome, layout, hlayout, rfl⟩
        · rcases hstep' with ⟨-, rfl⟩ | ⟨hsome', -⟩
          · exact hrest group.id hid
          · exact absurd hempty hsome'
        · rcases hstep' with ⟨hempty', -⟩ | ⟨-, layout', hlayout', rfl⟩
          · exact absurd hempty' hsome
          · rw [hlaid, hlayout] at hlayout'
            rw [Keyed.find?_insert, Keyed.find?_insert, if_pos rfl, if_pos rfl,
              Except.ok.inj hlayout']
      · rw [find?_layoutGroups_cons hbefore hinner hsame,
          find?_layoutGroups_cons hafter hinner' hsame]
        exact hrest id hid

end Context

end Layout

/-! ### One edge more -/

namespace Diagram

open Layout

variable {α β : Type} [Scalar α] [Scalar β] {engine : Layered.Engine α β}
  {settings : LayoutSettings α} {diagram : Diagram} {edges others : List Edge}

theorem IsNested.layout_congr (h : diagram.IsNested)
    (hagree : ∀ scope, (Context.ofDiagram engine settings diagram).Agree scope
      edges others) :
    (diagram.withEdges others).layout engine settings =
      (diagram.withEdges edges).layout engine settings := by
  have hgroups :
      (Context.ofDiagram engine settings (diagram.withEdges others)).layoutGroups
          (diagram.withEdges others).groups =
        (Context.ofDiagram engine settings
          (diagram.withEdges edges)).layoutGroups
          (diagram.withEdges edges).groups :=
    Context.layoutGroups_congr h (fun id => hagree (some id))
      (List.Subset.refl diagram.groups)
  unfold Diagram.layout
  simp only [hgroups, (hagree none).layoutTop_eq]

theorem IsNested.withEdges (h : diagram.IsNested) (edges : List Edge) :
    (diagram.withEdges edges).IsNested :=
  ⟨h.ids_nodup, h.members_perm, h.group_mem, h.parent_mem⟩

/-- Groups that agree, and with a group also those inside, keep their layouts. -/
theorem IsNested.find?_groups_layout (h : diagram.IsNested)
    (kept : String → Prop)
    (hinside : ∀ group ∈ diagram.groups, ∀ outer,
      group.parent = some outer → kept outer → kept group.id)
    (hagree : ∀ id, kept id →
      (Context.ofDiagram engine settings diagram).Agree (some id) edges others)
    {before after : DiagramLayout α}
    (hbefore : (diagram.withEdges edges).layout engine settings = .ok before)
    (hafter : (diagram.withEdges others).layout engine settings = .ok after)
    {id : String} (hid : kept id) :
    after.groups.find? id = before.groups.find? id := by
  obtain ⟨groups, hgroups⟩ := Context.exists_yields (h.withEdges edges) hbefore
  obtain ⟨groups', hgroups'⟩ :=
    Context.exists_yields (h.withEdges others) hafter
  rw [hgroups.find?_eq, hgroups'.find?_eq]
  exact Context.find?_layoutGroups_eq h kept hinside hagree
    (List.Subset.refl diagram.groups) hgroups.layoutGroups_eq
    hgroups'.layoutGroups_eq hid

/-- An added edge is felt only by groups that contain both of its ends.  It makes
no difference at all if it joins nested things or has the ends of another edge,
and neither do the labels and the connectors of edges. -/
theorem IsNested.layout_addedEdge (h : diagram.IsNested)
    (engine : Layered.Engine α β) (settings : LayoutSettings α) :
    (∀ edge before after, diagram.layout engine settings = .ok before →
      (diagram.withEdges (diagram.edges ++ [edge])).layout engine settings =
          .ok after →
        ∀ group ∈ diagram.groups,
          ¬ (diagram.Contains (some group.id) edge.source ∧
            diagram.Contains (some group.id) edge.target) →
          after.groups.find? group.id = before.groups.find? group.id) ∧
      (∀ edge, diagram.IsRedundant edge →
        (diagram.withEdges (diagram.edges ++ [edge])).layout engine settings =
          diagram.layout engine settings) ∧
      ∀ edges, edges.map Edge.ends = diagram.edges.map Edge.ends →
        (diagram.withEdges edges).layout engine settings =
          diagram.layout engine settings := by
  have hsame : ∀ {scope edge}, ¬ diagram.Separates scope edge →
      (Context.ofDiagram engine settings diagram).Agree scope diagram.edges
        (diagram.edges ++ [edge]) := by
    intro scope edge hoff layouts
    have hgraph := Context.graphIn_of_not_separates engine settings layouts hoff
      diagram.edges []
    rwa [List.append_nil] at hgraph
  refine ⟨?_, ?_, ?_⟩
  · intro edge before after hbefore hafter group _ hoff
    refine h.find?_groups_layout
      (fun id => ¬ (diagram.Contains (some id) edge.source ∧
        diagram.Contains (some id) edge.target))
      ?_ ?_ hbefore hafter hoff
    · rintro inner hinner outer hparent houter ⟨hsource, htarget⟩
      have hholds : diagram.Holds (some outer) inner.id :=
        hparent ▸ .group hinner
      exact houter ⟨hsource.of_holds hholds, htarget.of_holds hholds⟩
    · intro id hid
      exact hsame (h.isForest.not_separates_of_not_contains hid)
  · rintro edge (hjoins | ⟨other, hother, hends⟩)
    · exact h.layout_congr fun scope =>
        hsame (h.isForest.not_separates_of_joinsNested hjoins)
    · exact h.layout_congr fun scope layouts =>
        scopeGraph_of_repeated hother hends
  · intro edges hends
    exact h.layout_congr fun scope layouts => scopeGraph_congr hends

/-- An edge that leaves the inner one of two groups, and one that is there
already. -/
theorem layout_addedEdge_nested :
    let source := "graph TD\nsubgraph a\nsubgraph b\nA --> B\nend\nC\nend".toList
    let diagram := (parse source).diagram
    let settings := LayoutSettings.exactDefault
    let engine : Layered.Engine ℚ ℚ :=
      ⟨id, id, fun count _ _ => [(List.range count).map fun v => ⟨v, 0, v⟩]⟩
    let outward : Edge := ⟨"A", "C", none, .arrow⟩
    let again : Edge := ⟨"A", "B", some "x", .line⟩
    (diagram.IsNested ∧ diagram.IsRedundant again ∧
      ¬ (diagram.Contains (some "b") "A" ∧ diagram.Contains (some "b") "C")) ∧
    (∃ before after,
      diagram.layout engine settings = .ok before ∧
        (diagram.withEdges (diagram.edges ++ [outward])).layout engine
          settings = .ok after ∧
        after.groups.find? "b" = before.groups.find? "b") ∧
    (diagram.withEdges (diagram.edges ++ [again])).layout engine settings =
        diagram.layout engine settings ∧
      (diagram.withEdges [again]).layout engine settings =
        diagram.layout engine settings := by
  intro source diagram settings engine outward again
  have hnested : diagram.IsNested := isNested_parse source
  have hagain : diagram.IsRedundant again :=
    .inr ⟨⟨"A", "B", none, .arrow⟩, by decide +kernel, rfl⟩
  have hoff : ¬ (diagram.Contains (some "b") "A" ∧
      diagram.Contains (some "b") "C") := by
    rw [hnested.isForest.contains_iff_exists_itemIn?,
      hnested.isForest.contains_iff_exists_itemIn?]
    have hnone : diagram.containment.itemIn? (some "b") "C" = none := by
      decide +kernel
    simp [hnone]
  obtain ⟨before, hbefore⟩ :=
    hnested.exists_layout engine LayoutSettings.fault?_exactDefault
  obtain ⟨after, hafter⟩ :=
    (hnested.withEdges (diagram.edges ++ [outward])).exists_layout engine
      LayoutSettings.fault?_exactDefault
  obtain ⟨group, hgroup, hid⟩ : ∃ group ∈ diagram.groups, group.id = "b" := by
    decide +kernel
  obtain ⟨hframe, hredundant, hlabels⟩ :=
    hnested.layout_addedEdge engine settings
  refine ⟨⟨hnested, hagain, hoff⟩, ⟨before, after, hbefore, hafter, ?_⟩,
    hredundant again hagain, hlabels [again] (by decide +kernel)⟩
  have hkept := hframe outward before after hbefore hafter group hgroup
  rw [hid] at hkept
  exact hkept hoff

end Diagram

end Flowchart
