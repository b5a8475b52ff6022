import Flowchart.Proofs.ContentAreas
import Flowchart.Proofs.SettledLayouts

/-!
# Every edge is laid out in one scope

Each scope looks at all edges of the diagram and decides by itself which of them
join its items.  An edge between things of which neither encloses the other
joins two different items in exactly one scope, the innermost one that contains
both ends.  An edge from a thing to itself, or to something around it, joins two
items nowhere.  The items of a scope and the edges that join them are its graph;
the top level and the groups are laid out by these graphs.
-/

namespace Flowchart

namespace Diagram

/-- The ends of the edge stand for different items of the scope. -/
def Separates (diagram : Diagram) (scope : Option String) (edge : Edge) : Prop :=
  ∃ source target,
    diagram.containment.itemIn? scope edge.source = some source ∧
      diagram.containment.itemIn? scope edge.target = some target ∧
      source ≠ target

/-- The ends of the edge are the same, or one of them is a group that contains
the other. -/
def JoinsNested (diagram : Diagram) (edge : Edge) : Prop :=
  edge.source = edge.target ∨ diagram.Contains (some edge.source) edge.target ∨
    diagram.Contains (some edge.target) edge.source

/-- The scope contains both ends of the edge, and every other scope that does
contains the scope. -/
structure IsInnermost (diagram : Diagram) (scope : Option String)
    (edge : Edge) : Prop where
  contains_source : diagram.Contains scope edge.source
  contains_target : diagram.Contains scope edge.target
  inside : ∀ other, diagram.Contains other edge.source →
    diagram.Contains other edge.target → other ≠ scope →
      ∃ group, scope = some group ∧ diagram.Contains other group

variable {diagram : Diagram} {scope : Option String} {edge : Edge}

theorem joinsNested_iff :
    diagram.JoinsNested edge ↔
      diagram.Encloses edge.source edge.target ∨
        diagram.Encloses edge.target edge.source := by
  rw [encloses_iff_eq_or_contains, encloses_iff_eq_or_contains, JoinsNested,
    eq_comm (a := edge.target)]
  tauto

theorem not_separates_iff :
    ¬ diagram.Separates scope edge ↔
      diagram.containment.itemIn? scope edge.source = none ∨
        diagram.containment.itemIn? scope edge.target = none ∨
        ∃ item, diagram.containment.itemIn? scope edge.source = some item ∧
          diagram.containment.itemIn? scope edge.target = some item := by
  unfold Separates
  cases diagram.containment.itemIn? scope edge.source <;>
    cases diagram.containment.itemIn? scope edge.target <;>
    simp [eq_comm]

namespace IsForest

theorem separates_iff (h : diagram.IsForest) :
    diagram.Separates scope edge ↔
      ∃ source target,
        (diagram.Encloses source edge.source ∧ diagram.Holds scope source) ∧
          (diagram.Encloses target edge.target ∧ diagram.Holds scope target) ∧
          source ≠ target := by
  simp only [Separates, h.itemIn?_eq_some_iff]

theorem item_unique (h : diagram.IsForest) {id item other : String}
    (hitem : diagram.Encloses item id ∧ diagram.Holds scope item)
    (hother : diagram.Encloses other id ∧ diagram.Holds scope other) :
    item = other := by
  rw [← h.itemIn?_eq_some_iff] at hitem hother
  exact Option.some.inj (hitem.symm.trans hother)

theorem not_separates_of_joinsNested (h : diagram.IsForest)
    (hnested : diagram.JoinsNested edge) : ¬ diagram.Separates scope edge := by
  rw [h.separates_iff]
  rintro ⟨source, target, ⟨hsource, hleft⟩, ⟨htarget, hright⟩, hne⟩
  rcases joinsNested_iff.mp hnested with hdown | hup
  · exact hne (h.item_unique ⟨hdown.trans hsource, hleft⟩ ⟨htarget, hright⟩)
  · exact hne (h.item_unique ⟨hsource, hleft⟩ ⟨hup.trans htarget, hright⟩)

/-- Two items of one scope lead to a scope that separates what they enclose: as
long as the items are the same one, go inside. -/
private theorem exists_separating (h : diagram.IsForest)
    {source target : String} (hdown : ¬ diagram.Encloses edge.source edge.target)
    (hup : ¬ diagram.Encloses edge.target edge.source)
    (hsource : diagram.Encloses source edge.source)
    (hleft : diagram.Holds scope source)
    (htarget : diagram.Encloses target edge.target)
    (hright : diagram.Holds scope target) :
    ∃ scope, diagram.Separates scope edge := by
  -- By induction on the groups between the item and the source.
  induction hsource generalizing scope target with
  | refl =>
      have hne : edge.source ≠ target := by
        rintro rfl
        exact hdown htarget
      exact ⟨scope, h.separates_iff.mpr
        ⟨edge.source, target, ⟨.refl _, hleft⟩, ⟨htarget, hright⟩, hne⟩⟩
  | @tail inner outer hinner hstep ih =>
      have houter : diagram.Encloses outer edge.source := hinner.tail hstep
      by_cases hsame : outer = target
      · subst hsame
        rcases encloses_iff_eq_or_contains.mp htarget with
          rfl | ⟨item, hitem, hholds⟩
        · exact absurd houter hup
        · exact ih hstep hitem hholds
      · exact ⟨scope, h.separates_iff.mpr
          ⟨outer, target, ⟨houter, hleft⟩, ⟨htarget, hright⟩, hsame⟩⟩

theorem exists_separates (h : diagram.IsForest)
    (hsource : edge.source ∈ diagram.ids) (htarget : edge.target ∈ diagram.ids)
    (hnested : ¬ diagram.JoinsNested edge) :
    ∃ scope, diagram.Separates scope edge := by
  rw [joinsNested_iff, not_or] at hnested
  obtain ⟨source, henclosed, hleft⟩ := h.contains_top hsource
  obtain ⟨target, henclosing, hright⟩ := h.contains_top htarget
  exact h.exists_separating hnested.1 hnested.2 henclosed hleft henclosing hright

/-- Around the scope that separates the ends of an edge, both ends stand for
the item that this scope lies in. -/
theorem inside_of_separates (h : diagram.IsForest)
    (hseparates : diagram.Separates scope edge) {other : Option String}
    (hsource : diagram.Contains other edge.source)
    (htarget : diagram.Contains other edge.target) (hne : other ≠ scope) :
    (∃ group, scope = some group ∧ diagram.Contains other group) ∧
      ¬ diagram.Separates other edge := by
  obtain ⟨left, right, ⟨hleft, hholdsLeft⟩, ⟨hright, hholdsRight⟩, hdiffer⟩ :=
    h.separates_iff.mp hseparates
  obtain ⟨item, hitem, hother⟩ := hsource
  -- The items of the source in the two scopes lie on one way up.
  rcases h.encloses_total hleft hitem with hout | hin
  · rcases Relation.ReflTransGen.cases_head hout with
      rfl | ⟨group, hstep, hgroup⟩
    · exact absurd (h.holds_unique hother hholdsLeft) hne
    · obtain rfl := h.holds_unique hholdsLeft hstep
      refine ⟨⟨group, rfl, item, hgroup, hother⟩, ?_⟩
      have hboth : diagram.Encloses item edge.target :=
        (hright.trans (.of_holds hholdsRight)).trans hgroup
      rw [h.separates_iff]
      rintro ⟨first, second, hfirst, hsecond, hdistinct⟩
      apply hdistinct
      rw [h.item_unique hfirst ⟨hitem, hother⟩,
        h.item_unique hsecond ⟨hboth, hother⟩]
  · rcases Relation.ReflTransGen.cases_head hin with
      rfl | ⟨group, hstep, hgroup⟩
    · exact absurd (h.holds_unique hother hholdsLeft) hne
    · obtain rfl := h.holds_unique hother hstep
      obtain ⟨inner, hinner, hholds⟩ := htarget
      have hboth : diagram.Encloses left edge.target :=
        (hinner.trans (.of_holds hholds)).trans hgroup
      exact absurd
        (h.item_unique ⟨hboth, hholdsLeft⟩ ⟨hright, hholdsRight⟩) hdiffer

theorem isInnermost_of_separates (h : diagram.IsForest)
    (hseparates : diagram.Separates scope edge) :
    diagram.IsInnermost scope edge := by
  obtain ⟨left, right, hleft, hright, -⟩ := h.separates_iff.mp hseparates
  refine ⟨⟨left, hleft⟩, ⟨right, hright⟩, ?_⟩
  intro other hsource htarget hne
  exact (h.inside_of_separates hseparates hsource htarget hne).1

theorem separates_unique (h : diagram.IsForest) {other : Option String}
    (hscope : diagram.Separates scope edge)
    (hother : diagram.Separates other edge) : other = scope := by
  by_contra hne
  obtain ⟨left, right, hleft, hright, -⟩ := h.separates_iff.mp hother
  exact (h.inside_of_separates hscope ⟨left, hleft⟩ ⟨right, hright⟩ hne).2 hother

end IsForest

end Diagram

/-! ### The graphs of the scopes -/

namespace Layout

variable {α β : Type}

/-- How arcs get into the graph of a scope: at the top level, boxes are joined
once at the most. -/
def addIn : Option String → LayeredGraph α → ℕ → ℕ → LayeredGraph α
  | none => addLink
  | some _ => LayeredGraph.addArc

/-- The arc is in the graph of the scope.  At the top level it may point either
way. -/
def HasArc (scope : Option String) (graph : LayeredGraph α)
    (source target : ℕ) : Prop :=
  ⟨source, target⟩ ∈ graph.arcs ∨
    scope = none ∧ ⟨target, source⟩ ∈ graph.arcs

theorem addArc_self (graph : LayeredGraph α) (item : ℕ) :
    graph.addArc item item = graph := by
  simp [LayeredGraph.addArc]

theorem addIn_self (scope : Option String) (graph : LayeredGraph α)
    (item : ℕ) : addIn scope graph item item = graph := by
  cases scope with
  | none => simp [addIn, addLink, addArc_self]
  | some _ => exact addArc_self graph item

theorem sizes_addIn (scope : Option String) (graph : LayeredGraph α)
    (source target : ℕ) : (addIn scope graph source target).sizes = graph.sizes := by
  cases scope with
  | none => exact sizes_addLink graph source target
  | some _ => exact sizes_addArc graph source target

theorem arcs_subset_addArc (graph : LayeredGraph α) (source target : ℕ) :
    graph.arcs ⊆ (graph.addArc source target).arcs := by
  unfold LayeredGraph.addArc
  dsimp only
  split_ifs
  · exact List.Subset.refl _
  · exact List.Subset.refl _
  · exact List.subset_append_left _ _

theorem arcs_subset_addIn (scope : Option String) (graph : LayeredGraph α)
    (source target : ℕ) : graph.arcs ⊆ (addIn scope graph source target).arcs := by
  cases scope with
  | none =>
      rw [addIn, addLink]
      split_ifs
      · exact List.Subset.refl _
      · exact arcs_subset_addArc graph source target
  | some _ => exact arcs_subset_addArc graph source target

theorem mem_arcs_addArc {graph : LayeredGraph α} {source target : ℕ}
    (hne : source ≠ target) (hsource : source < graph.sizes.length)
    (htarget : target < graph.sizes.length) :
    ⟨source, target⟩ ∈ (graph.addArc source target).arcs := by
  have hvalid : ¬ (source = target ∨ graph.sizes.length ≤ source ∨
      graph.sizes.length ≤ target) := by omega
  simp only [LayeredGraph.addArc, if_neg hvalid]
  split_ifs with hold
  · simpa using hold
  · simp

theorem hasArc_addIn (scope : Option String) {graph : LayeredGraph α}
    {source target : ℕ} (hne : source ≠ target)
    (hsource : source < graph.sizes.length)
    (htarget : target < graph.sizes.length) :
    HasArc scope (addIn scope graph source target) source target := by
  cases scope with
  | none =>
      rw [addIn, addLink]
      split_ifs with hreverse
      · exact .inr ⟨rfl, by simpa using hreverse⟩
      · exact .inl (mem_arcs_addArc hne hsource htarget)
  | some _ => exact .inl (mem_arcs_addArc hne hsource htarget)

theorem HasArc.mono {scope : Option String} {graph more : LayeredGraph α}
    {source target : ℕ} (h : HasArc scope graph source target)
    (hsubset : graph.arcs ⊆ more.arcs) : HasArc scope more source target :=
  h.imp (fun harc => hsubset harc) (And.imp_right fun harc => hsubset harc)

/-! ### Places among the items -/

theorem getElem?_of_lastIndex? {id : String} {items : List (Item α)} {i : ℕ}
    (h : lastIndex? id items = some i) :
    (items.map Prod.fst)[i]? = some id := by
  induction items generalizing i with
  | nil => exact absurd h (by simp [lastIndex?])
  | cons item others ih =>
      rw [lastIndex?] at h
      cases hothers : lastIndex? id others with
      | some index =>
          rw [hothers] at h
          rw [← Option.some.inj h]
          exact ih hothers
      | none =>
          simp only [hothers] at h
          split at h
          next hid =>
            rw [← Option.some.inj h, ← hid]
            rfl
          next => exact absurd h (by simp)

theorem exists_lastIndex? {id : String} {items : List (Item α)}
    (h : id ∈ items.map Prod.fst) : ∃ i, lastIndex? id items = some i := by
  induction items with
  | nil => exact absurd h (by simp)
  | cons item others ih =>
      rw [lastIndex?]
      cases hothers : lastIndex? id others with
      | some index => exact ⟨index + 1, rfl⟩
      | none =>
          rw [List.map_cons, List.mem_cons] at h
          rcases h with rfl | hmem
          · exact ⟨0, by simp⟩
          · obtain ⟨i, hi⟩ := ih hmem
            exact absurd (hothers.symm.trans hi) (by simp)

/-! ### Edges in the graph of a scope -/

theorem scopeGraph_append
    (add : LayeredGraph α → ℕ → ℕ → LayeredGraph α)
    (containment : Containment) (scope : Option String)
    (items : List (Item α)) (before after : List Edge) :
    scopeGraph add containment scope items (before ++ after) =
      (after.filterMap (endsIn? containment scope items)).foldl
        (fun graph (source, target) => add graph source target)
        (scopeGraph add containment scope items before) := by
  rw [scopeGraph, scopeGraph, List.filterMap_append, List.foldl_append]

theorem arcs_subset_foldl_addIn (scope : Option String)
    (ends : List (ℕ × ℕ)) (graph : LayeredGraph α) :
    graph.arcs ⊆ (ends.foldl
      (fun graph (source, target) => addIn scope graph source target)
      graph).arcs := by
  induction ends generalizing graph with
  | nil => exact List.Subset.refl _
  | cons pair rest ih =>
      exact List.Subset.trans (arcs_subset_addIn scope graph pair.1 pair.2)
        (ih _)

theorem exists_lastIndex?_of_endsIn? {containment : Containment}
    {scope : Option String} {items : List (Item α)} {edge : Edge} {i j : ℕ}
    (h : endsIn? containment scope items edge = some (i, j)) :
    ∃ source target,
      containment.itemIn? scope edge.source = some source ∧
        containment.itemIn? scope edge.target = some target ∧
        lastIndex? source items = some i ∧ lastIndex? target items = some j := by
  obtain ⟨source, hsource, hrest⟩ := Option.bind_eq_some_iff.mp h
  obtain ⟨target, htarget, hrest⟩ := Option.bind_eq_some_iff.mp hrest
  obtain ⟨i', hi, hrest⟩ := Option.bind_eq_some_iff.mp hrest
  obtain ⟨j', hj, hresult⟩ := Option.bind_eq_some_iff.mp hrest
  obtain ⟨rfl, rfl⟩ := Prod.mk.inj (Option.some.inj hresult)
  exact ⟨source, target, hsource, htarget, hi, hj⟩

/-- An edge between different items of the scope is an arc of its graph. -/
theorem hasArc_scopeGraph_of_mem {containment : Containment}
    {scope : Option String} {items : List (Item α)} {edges : List Edge}
    {edge : Edge} {i j : ℕ} (hedge : edge ∈ edges)
    (hends : endsIn? containment scope items edge = some (i, j)) (hne : i ≠ j) :
    HasArc scope (scopeGraph (addIn scope) containment scope items edges)
      i j := by
  obtain ⟨source, target, -, -, hi, hj⟩ := exists_lastIndex?_of_endsIn? hends
  obtain ⟨before, after, rfl⟩ := List.append_of_mem hedge
  rw [scopeGraph_append, List.filterMap_cons_some hends, List.foldl_cons]
  refine HasArc.mono ?_ (arcs_subset_foldl_addIn scope _ _)
  have hsizes : (scopeGraph (addIn scope) containment scope items
      before).sizes = items.map Prod.snd :=
    sizes_scopeGraph (sizes_addIn scope) _ _ _ _
  apply hasArc_addIn scope hne
  · rw [hsizes, List.length_map]
    simpa using (List.getElem?_eq_some_iff.mp (getElem?_of_lastIndex? hi)).1
  · rw [hsizes, List.length_map]
    simpa using (List.getElem?_eq_some_iff.mp (getElem?_of_lastIndex? hj)).1

namespace Context

variable [Scalar α]

/-- The items of the scope, given the layouts of the groups inside. -/
def scopeItems (context : Context α β) (layouts : Keyed (GroupLayout α)) :
    Option String → List (Item α)
  | none => context.topItems layouts
  | some id =>
    match context.diagram.group? id with
    | some group => context.groupItems layouts group
    | none => []

/-- The graph that is laid out in the scope, if these are the edges. -/
def graphIn (context : Context α β) (layouts : Keyed (GroupLayout α))
    (scope : Option String) (edges : List Edge) : LayeredGraph α :=
  scopeGraph (addIn scope) context.containment scope
    (context.scopeItems layouts scope) edges

theorem layoutTop_eq [Scalar β] (context : Context α β)
    (layouts : Keyed (GroupLayout α)) :
    context.layoutTop layouts = do
      let placement ←
        (context.graphIn layouts none context.diagram.edges).layout
          context.engine context.diagram.direction context.settings.outer
      return placeItems (context.scopeItems layouts none)
        placement.positions :=
  rfl

theorem layoutGroup_eq [Scalar β] {context : Context α β} {group : Group}
    (h : context.diagram.group? group.id = some group)
    (layouts : Keyed (GroupLayout α)) :
    context.layoutGroup group (context.groupItems layouts group) = do
      let placement ←
        (context.graphIn layouts (some group.id) context.diagram.edges).layout
          context.engine (context.diagram.directionOf group.id)
          context.settings.inner
      let insets := context.settings.groupInsets
      return {
        size := (placement.size.pad insets).max
          ⟨context.settings.titleWidth group.title, Scalar.zero⟩
        children := placeItems (context.scopeItems layouts (some group.id))
          (placement.positions.map fun position =>
            position.add insets.contentOrigin) } := by
  simp only [graphIn, scopeItems, h]
  rfl

variable (engine : Layered.Engine α β) (settings : LayoutSettings α)
  (layouts : Keyed (GroupLayout α)) {diagram : Diagram}
  {scope : Option String} {edge : Edge}

theorem mem_scopeItems_of_holds (h : diagram.IsNested) {id : String}
    (hid : diagram.Holds scope id) :
    id ∈ ((ofDiagram engine settings diagram).scopeItems layouts scope).map
      Prod.fst := by
  cases scope with
  | none =>
      rw [scopeItems, map_fst_topItems engine settings h]
      generalize hnone : (none : Option String) = top at hid
      cases hid with
      | group hgroup =>
          exact List.mem_append_left _ (List.mem_map_of_mem
            (Diagram.mem_childGroups_iff.mpr ⟨hgroup, hnone.symm⟩))
      | node hnode =>
          exact List.mem_append_right _ (List.mem_map_of_mem
            (Diagram.mem_topNodes_iff.mpr ⟨hnode, hnone.symm⟩))
  | some outer =>
      obtain ⟨depth, -, haround⟩ := h.isForest.exists_depth hid
      cases haround with
      | @inside group depth hgroup =>
          have hfound :
              (ofDiagram engine settings diagram).diagram.group? group.id =
                some group := h.group?_eq hgroup
          simp only [scopeItems, hfound]
          rw [map_fst_groupItems engine settings h hgroup]
          generalize hsome : some group.id = around at hid
          cases hid with
          | group hchild =>
              exact List.mem_append_right _ (List.mem_map_of_mem
                (Diagram.mem_childGroups_iff.mpr ⟨hchild, hsome.symm⟩))
          | node hnode =>
              exact List.mem_append_left _
                ((h.node_mem_members_iff hnode hgroup).mpr hsome.symm)

/-- An edge whose ends the scope does not separate makes no difference to its
graph. -/
theorem graphIn_of_not_separates (h : ¬ diagram.Separates scope edge)
    (before after : List Edge) :
    (ofDiagram engine settings diagram).graphIn layouts scope
        (before ++ edge :: after) =
      (ofDiagram engine settings diagram).graphIn layouts scope
        (before ++ after) := by
  rw [graphIn, graphIn, scopeGraph_append, scopeGraph_append]
  cases hends : endsIn? (ofDiagram engine settings diagram).containment scope
      ((ofDiagram engine settings diagram).scopeItems layouts scope) edge with
  | none => rw [List.filterMap_cons_none hends]
  | some ends =>
      obtain ⟨i, j⟩ := ends
      rw [List.filterMap_cons_some hends, List.foldl_cons]
      obtain ⟨source, target, hsource, htarget, hi, hj⟩ :=
        exists_lastIndex?_of_endsIn? hends
      obtain rfl : source = target := by
        by_contra hne
        exact h ⟨source, target, hsource, htarget, hne⟩
      obtain rfl := Option.some.inj (hi.symm.trans hj)
      simp only [addIn_self]

/-- An edge whose ends the scope separates is an arc between the items that they
stand for. -/
theorem hasArc_graphIn_of_separates (h : diagram.IsNested)
    (hseparates : diagram.Separates scope edge) {edges : List Edge}
    (hedge : edge ∈ edges) :
    let context := ofDiagram engine settings diagram
    ∃ i j, i ≠ j ∧
      ((context.scopeItems layouts scope).map Prod.fst)[i]? =
        diagram.containment.itemIn? scope edge.source ∧
      ((context.scopeItems layouts scope).map Prod.fst)[j]? =
        diagram.containment.itemIn? scope edge.target ∧
      HasArc scope (context.graphIn layouts scope edges) i j := by
  intro context
  obtain ⟨source, target, hsource, htarget, hne⟩ := hseparates
  have hleft := (h.isForest.itemIn?_eq_some_iff.mp hsource).2
  have hright := (h.isForest.itemIn?_eq_some_iff.mp htarget).2
  obtain ⟨i, hi⟩ := exists_lastIndex?
    (mem_scopeItems_of_holds engine settings layouts h hleft)
  obtain ⟨j, hj⟩ := exists_lastIndex?
    (mem_scopeItems_of_holds engine settings layouts h hright)
  have hplaceLeft := getElem?_of_lastIndex? hi
  have hplaceRight := getElem?_of_lastIndex? hj
  have hdistinct : i ≠ j := by
    rintro rfl
    exact hne (Option.some.inj (hplaceLeft.symm.trans hplaceRight))
  refine ⟨i, j, hdistinct, hplaceLeft.trans hsource.symm,
    hplaceRight.trans htarget.symm, ?_⟩
  have hends : endsIn? context.containment scope
      (context.scopeItems layouts scope) edge = some (i, j) := by
    have hsource' : context.containment.itemIn? scope edge.source =
        some source := hsource
    have htarget' : context.containment.itemIn? scope edge.target =
        some target := htarget
    simp only [endsIn?, hsource', htarget', Option.bind_eq_bind,
      Option.bind_some]
    rw [hi, hj]
    rfl
  exact hasArc_scopeGraph_of_mem hedge hends hdistinct

end Context

end Layout

/-! ### One scope for every edge -/

namespace Diagram

open Layout

variable {α β : Type} [Scalar α] [Scalar β] {diagram : Diagram}

/-- The ends of an edge are separated by no scope if one encloses the other, and
by exactly one otherwise.  That one is the innermost scope around both, and its
graph has the edge as an arc.  To all other scopes the edge makes no
difference: one of its ends has no item there, or both have the same.  The top
level and the groups are laid out by these graphs, and every layout of the
diagram consists of what they give. -/
theorem IsNested.edge_in_one_scope (h : diagram.IsNested)
    (hattached : diagram.EdgesAttached) (engine : Layered.Engine α β)
    (settings : LayoutSettings α) {edge : Edge} (hedge : edge ∈ diagram.edges) :
    let context := Context.ofDiagram engine settings diagram
    (diagram.JoinsNested edge → ∀ scope, ¬ diagram.Separates scope edge) ∧
      (¬ diagram.JoinsNested edge → ∃! scope, diagram.Separates scope edge) ∧
      (∀ layouts scope, diagram.Separates scope edge →
        diagram.IsInnermost scope edge ∧
          ∃ i j, i ≠ j ∧
            ((context.scopeItems layouts scope).map Prod.fst)[i]? =
              diagram.containment.itemIn? scope edge.source ∧
            ((context.scopeItems layouts scope).map Prod.fst)[j]? =
              diagram.containment.itemIn? scope edge.target ∧
            HasArc scope (context.graphIn layouts scope diagram.edges) i j) ∧
      (∀ layouts scope, ¬ diagram.Separates scope edge →
        (diagram.containment.itemIn? scope edge.source = none ∨
          diagram.containment.itemIn? scope edge.target = none ∨
          ∃ item, diagram.containment.itemIn? scope edge.source = some item ∧
            diagram.containment.itemIn? scope edge.target = some item) ∧
          ∀ before after,
            context.graphIn layouts scope (before ++ edge :: after) =
              context.graphIn layouts scope (before ++ after)) ∧
      (∀ layouts, context.layoutTop layouts = do
        let placement ← (context.graphIn layouts none diagram.edges).layout
          engine diagram.direction settings.outer
        return placeItems (context.scopeItems layouts none)
          placement.positions) ∧
      (∀ layouts, ∀ group ∈ diagram.groups,
        context.layoutGroup group (context.groupItems layouts group) = do
          let placement ←
            (context.graphIn layouts (some group.id) diagram.edges).layout
              engine (diagram.directionOf group.id) settings.inner
          let insets := settings.groupInsets
          return {
            size := (placement.size.pad insets).max
              ⟨settings.titleWidth group.title, Scalar.zero⟩
            children :=
              placeItems (context.scopeItems layouts (some group.id))
                (placement.positions.map fun position =>
                  position.add insets.contentOrigin) }) ∧
      ∀ layout, diagram.layout engine settings = .ok layout →
        ∃ layouts, context.layoutTop layouts = .ok layout.topLevel ∧
          ∀ group ∈ diagram.groups, diagram.contentIds group ≠ [] →
            ∃ inner, layout.groups.find? group.id = some inner ∧
              context.layoutGroup group (context.groupItems layouts group) =
                .ok inner := by
  intro context
  obtain ⟨hsource, htarget⟩ := hattached edge hedge
  refine ⟨?_, ?_, ?_, ?_, ?_, ?_, ?_⟩
  · intro hnested scope
    exact h.isForest.not_separates_of_joinsNested hnested
  · intro hnested
    obtain ⟨scope, hscope⟩ :=
      h.isForest.exists_separates hsource htarget hnested
    exact ⟨scope, hscope, fun _ hother =>
      h.isForest.separates_unique hscope hother⟩
  · intro layouts scope hscope
    exact ⟨h.isForest.isInnermost_of_separates hscope,
      Context.hasArc_graphIn_of_separates engine settings layouts h hscope hedge⟩
  · intro layouts scope hscope
    exact ⟨not_separates_iff.mp hscope,
      Context.graphIn_of_not_separates engine settings layouts hscope⟩
  · intro layouts
    exact context.layoutTop_eq layouts
  · intro layouts group hgroup
    exact Context.layoutGroup_eq (h.group?_eq hgroup) layouts
  · intro layout hlayout
    exact Context.exists_settled h hlayout

/-- A node is joined with a node of the group around its group, and with that
group itself.  The first edge is an arc of the graph by which the inside of the
outer group is placed. -/
theorem edge_in_one_scope_nested :
    let source :=
      "graph TD\nsubgraph a\nsubgraph b\nA\nend\nB\nend\nA --> B\nA --> a".toList
    let diagram := (parse source).diagram
    let settings := LayoutSettings.exactDefault
    let engine : Layered.Engine ℚ ℚ :=
      ⟨id, id, fun count _ _ => [(List.range count).map fun v => ⟨v, 0, v⟩]⟩
    let context := Context.ofDiagram engine settings diagram
    let inside : Edge := ⟨"A", "B", none, .arrow⟩
    let outward : Edge := ⟨"A", "a", none, .arrow⟩
    (inside ∈ diagram.edges ∧ outward ∈ diagram.edges ∧
      diagram.JoinsNested outward) ∧
    (diagram.Separates (some "a") inside ∧
      diagram.IsInnermost (some "a") inside) ∧
    (∀ scope, ¬ diagram.Separates scope outward) ∧
    ∃ layout layouts, diagram.layout engine settings = .ok layout ∧
      (∃ placement,
        (context.graphIn layouts none diagram.edges).layout engine
          diagram.direction settings.outer = .ok placement ∧
        layout.topLevel =
          placeItems (context.scopeItems layouts none) placement.positions) ∧
      (∃ inner placement, layout.groups.find? "a" = some inner ∧
        (context.graphIn layouts (some "a") diagram.edges).layout engine
          (diagram.directionOf "a") settings.inner = .ok placement ∧
        inner.children = placeItems (context.scopeItems layouts (some "a"))
          (placement.positions.map fun position =>
            position.add settings.groupInsets.contentOrigin)) ∧
      ∃ i j, i ≠ j ∧
        ((context.scopeItems layouts (some "a")).map Prod.fst)[i]? =
          some "b" ∧
        ((context.scopeItems layouts (some "a")).map Prod.fst)[j]? =
          some "B" ∧
        HasArc (some "a") (context.graphIn layouts (some "a") diagram.edges)
          i j := by
  intro source diagram settings engine context inside outward
  have hinside : inside ∈ diagram.edges := by decide +kernel
  have houtward : outward ∈ diagram.edges := by decide +kernel
  have hnested := isNested_parse source
  have hattached := edgesAttached_parse source
  have hleft : diagram.containment.itemIn? (some "a") "A" = some "b" := by
    decide +kernel
  have hright : diagram.containment.itemIn? (some "a") "B" = some "B" := by
    decide +kernel
  have hjoins : diagram.JoinsNested outward :=
    .inr (.inr ⟨"b", hnested.isForest.itemIn?_eq_some_iff.mp hleft⟩)
  have hseparates : diagram.Separates (some "a") inside :=
    ⟨"b", "B", hleft, hright, by decide⟩
  obtain ⟨layout, hlayout⟩ :=
    hnested.exists_layout engine LayoutSettings.fault?_exactDefault
  obtain ⟨-, -, harc, -, htop, hgroup, hgiven⟩ :=
    hnested.edge_in_one_scope hattached engine settings hinside
  obtain ⟨hnone, -⟩ :=
    hnested.edge_in_one_scope hattached engine settings houtward
  obtain ⟨layouts, htopLevel, hgroups⟩ := hgiven layout hlayout
  let outer : Group := ⟨"a", "a", ["B"], none, none⟩
  have houter : outer ∈ diagram.groups := by decide +kernel
  obtain ⟨inner, hfound, hinner⟩ := hgroups outer houter (by decide +kernel)
  obtain ⟨hinnermost, i, j, hne, hi, hj, harc⟩ := harc layouts _ hseparates
  rw [htop] at htopLevel
  rw [hgroup layouts outer houter] at hinner
  obtain ⟨placement, hplacement, hboxes⟩ := bind_eq_ok_iff.mp htopLevel
  obtain ⟨around, haround, hchildren⟩ := bind_eq_ok_iff.mp hinner
  exact ⟨⟨hinside, houtward, hjoins⟩, ⟨hseparates, hinnermost⟩, hnone hjoins,
    layout, layouts, hlayout,
    ⟨placement, hplacement, (Except.ok.inj hboxes).symm⟩,
    ⟨inner, around, hfound, haround, by rw [← Except.ok.inj hchildren]⟩,
    i, j, hne, hi.trans hleft, hj.trans hright, harc⟩

end Diagram

end Flowchart
