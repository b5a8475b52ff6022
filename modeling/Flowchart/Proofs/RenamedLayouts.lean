import Flowchart.Proofs.Assembly
import Flowchart.Proofs.LayoutCoverage
import Mathlib.Data.Fintype.EquivFin
import Mathlib.SetTheory.Cardinal.Arithmetic

/-!
# Layouts under other ids

Ids only tell things apart.  Lookups, climbs and insertions compare ids and do
nothing else with them, so that they commute with every renaming that keeps
different ids apart; hence so does the layout of a diagram.
-/

namespace Flowchart

variable {α β : Type} {f : String → String}

/-! ### Steps with renamed results -/

/-- Steps whose results correspond, one after the other. -/
theorem bind_eq_map {ε γ δ γ' δ' : Type} {first : Except ε γ}
    {first' : Except ε γ'} {next : γ → Except ε δ} {next' : γ' → Except ε δ'}
    {lift : γ → γ'} {g : δ → δ'} (hfirst : first' = first.map lift)
    (hnext : ∀ value, next' (lift value) = (next value).map g) :
    first' >>= next' = (first >>= next).map g := by
  subst hfirst
  cases first with
  | error fault => rfl
  | ok value => exact hnext value

theorem mapError_map {ε δ γ : Type} {rename : ε → δ} {g : α → γ}
    (outcome : Except ε α) :
    (outcome.map g).mapError rename = (outcome.mapError rename).map g := by
  cases outcome <;> rfl

/-! ### Keyed values -/

namespace Keyed

/-- Renames the ids and changes the values. -/
def map {γ : Type} (f : String → String) (g : α → γ) (keyed : Keyed α) :
    Keyed γ :=
  ⟨keyed.entries.map (Prod.map f g)⟩

variable {γ : Type} {g : α → γ}

theorem put_map (hf : Function.Injective f) (id : String) (value : α)
    (entries : List (String × α)) :
    put (f id) (g value) (entries.map (Prod.map f g)) =
      (put id value entries).map (Prod.map f g) := by
  induction entries with
  | nil => rfl
  | cons entry others ih =>
      simp only [List.map_cons, put, Prod.map_fst, hf.eq_iff]
      split_ifs
      · rfl
      · rw [ih, List.map_cons]

theorem insert_map (hf : Function.Injective f) (keyed : Keyed α) (id : String)
    (value : α) :
    (keyed.map f g).insert (f id) (g value) = (keyed.insert id value).map f g :=
  congrArg Keyed.mk (put_map hf id value keyed.entries)

theorem ofList_map (hf : Function.Injective f) (entries : List (String × α)) :
    ofList (entries.map (Prod.map f g)) = (ofList entries).map f g := by
  have hall : ∀ keyed : Keyed α,
      (entries.map (Prod.map f g)).foldl
          (fun keyed entry => keyed.insert entry.1 entry.2) (keyed.map f g) =
        (entries.foldl (fun keyed entry => keyed.insert entry.1 entry.2)
          keyed).map f g := by
    induction entries with
    | nil => intro keyed; rfl
    | cons entry others ih =>
        intro keyed
        rw [List.map_cons, List.foldl_cons, List.foldl_cons, ← ih,
          Prod.map_fst, Prod.map_snd, insert_map hf]
  exact hall {}

theorem find?_map (hf : Function.Injective f) (keyed : Keyed α) (id : String) :
    (keyed.map f g).find? (f id) = (keyed.find? id).map g := by
  obtain ⟨entries⟩ := keyed
  simp only [find?, map]
  induction entries with
  | nil => rfl
  | cons entry others ih =>
      have hkey : (f id == f entry.1) = (id == entry.1) := by
        rw [Bool.eq_iff_iff, beq_iff_eq, beq_iff_eq, hf.eq_iff]
      rw [List.map_cons, List.lookup_cons, List.lookup_cons, Prod.map_fst, hkey,
        ih]
      split <;> rfl

theorem map_congr {f' : String → String} {g' : α → γ} {keyed : Keyed α}
    (h : ∀ entry ∈ keyed.entries, f' entry.1 = f entry.1 ∧
      g' entry.2 = g entry.2) : keyed.map f' g' = keyed.map f g :=
  congrArg Keyed.mk (List.map_congr_left fun entry hentry =>
    Prod.ext (h entry hentry).1 (h entry hentry).2)

end Keyed

/-! ### Renamed diagrams -/

def Node.rename (f : String → String) (node : Node) : Node :=
  { node with id := f node.id, group := node.group.map f }

def Edge.rename (f : String → String) (edge : Edge) : Edge :=
  { edge with source := f edge.source, target := f edge.target }

def Group.rename (f : String → String) (group : Group) : Group :=
  { group with
    id := f group.id
    members := group.members.map f
    parent := group.parent.map f }

namespace Diagram

/-- The diagram with other ids; labels, titles and all orders stay. -/
def rename (f : String → String) (diagram : Diagram) : Diagram :=
  { diagram with
    nodes := diagram.nodes.map (Node.rename f)
    edges := diagram.edges.map (Edge.rename f)
    groups := diagram.groups.map (Group.rename f) }

theorem group?_rename (hf : Function.Injective f) (diagram : Diagram)
    (id : String) :
    (diagram.rename f).group? (f id) =
      (diagram.group? id).map (Group.rename f) := by
  have hid : (fun group : Group => group.id == f id) ∘ Group.rename f =
      fun group => group.id == id := by
    funext group
    rw [Function.comp_apply, Bool.eq_iff_iff, beq_iff_eq, beq_iff_eq,
      Group.rename]
    exact hf.eq_iff
  rw [group?, group?, rename, List.find?_map, hid]

theorem childGroups_rename (hf : Function.Injective f) (diagram : Diagram)
    (scope : Option String) :
    (diagram.rename f).childGroups (scope.map f) =
      (diagram.childGroups scope).map (Group.rename f) := by
  simp only [childGroups, rename, List.filter_map]
  congr 1
  refine List.filter_congr fun group _ => ?_
  rw [Bool.eq_iff_iff, Function.comp_apply, beq_iff_eq, beq_iff_eq,
    Group.rename]
  exact (Option.map_injective hf).eq_iff

theorem topNodes_rename (f : String → String) (diagram : Diagram) :
    (diagram.rename f).topNodes = diagram.topNodes.map (Node.rename f) := by
  simp only [topNodes, rename, List.filter_map]
  congr 1
  refine List.filter_congr fun node _ => ?_
  simp [Node.rename]

theorem ownDirection?_rename (hf : Function.Injective f) (diagram : Diagram)
    (fuel : ℕ) (id : String) :
    (diagram.rename f).ownDirection? fuel (f id) =
      diagram.ownDirection? fuel id := by
  induction fuel generalizing id with
  | zero => rfl
  | succ fuel ih =>
      rw [ownDirection?, ownDirection?, group?_rename hf]
      cases diagram.group? id with
      | none => rfl
      | some group =>
          obtain ⟨_, _, _, parent, direction⟩ := group
          cases direction with
          | some direction => rfl
          | none =>
              cases parent with
              | none => rfl
              | some parent => exact ih parent

theorem directionOf_rename (hf : Function.Injective f) (diagram : Diagram)
    (id : String) :
    (diagram.rename f).directionOf (f id) = diagram.directionOf id := by
  have hlength : (diagram.rename f).groups.length = diagram.groups.length :=
    List.length_map _
  rw [directionOf, directionOf, hlength, ownDirection?_rename hf]
  rfl

theorem containment_rename (hf : Function.Injective f) (diagram : Diagram) :
    (diagram.rename f).containment =
      diagram.containment.map f (Option.map f) := by
  rw [containment, containment, ← Keyed.ofList_map hf]
  simp only [rename, List.map_append, List.map_map]
  rfl

end Diagram

/-! ### Scopes -/

theorem Containment.climb_map (hf : Function.Injective f)
    (containment : Containment) (scope : Option String) (fuel : ℕ)
    (item : String) (around : Option String) :
    Containment.climb (containment.map f (Option.map f)) (scope.map f) fuel
        (f item) (around.map f) =
      (containment.climb scope fuel item around).map f := by
  induction fuel generalizing item around with
  | zero => rfl
  | succ fuel ih =>
      unfold climb
      by_cases hstop : around = scope
      · rw [if_pos hstop, if_pos (congrArg (Option.map f) hstop)]
        rfl
      · rw [if_neg hstop, if_neg ((Option.map_injective hf).ne hstop)]
        cases around with
        | none => rfl
        | some group =>
            have hjoin : ((containment.map f (Option.map f)).find?
                (f group)).join = ((containment.find? group).join).map f := by
              rw [Keyed.find?_map hf]
              cases containment.find? group <;> rfl
            simp only [Option.map_some]
            rw [hjoin, ih]

theorem Containment.itemIn?_map (hf : Function.Injective f)
    (containment : Containment) (scope : Option String) (id : String) :
    Containment.itemIn? (containment.map f (Option.map f)) (scope.map f)
        (f id) =
      (containment.itemIn? scope id).map f := by
  have hlength : (containment.map f (Option.map f)).entries.length =
      containment.entries.length := List.length_map _
  rw [itemIn?, itemIn?, Keyed.find?_map hf, hlength]
  cases containment.find? id with
  | none => rfl
  | some around => exact climb_map hf containment scope _ id around

namespace Layout

/-- The box of the same size with another id. -/
def Item.rename (f : String → String) (item : Item α) : Item α :=
  (f item.1, item.2)

theorem lastIndex?_rename (hf : Function.Injective f) (id : String)
    (items : List (Item α)) :
    lastIndex? (f id) (items.map (Item.rename f)) = lastIndex? id items := by
  induction items with
  | nil => rfl
  | cons item others ih =>
      simp only [List.map_cons, lastIndex?, ih, Item.rename, hf.eq_iff]

theorem endsIn?_rename (hf : Function.Injective f) (containment : Containment)
    (scope : Option String) (items : List (Item α)) (edge : Edge) :
    endsIn? (containment.map f (Option.map f)) (scope.map f)
        (items.map (Item.rename f)) (edge.rename f) =
      endsIn? containment scope items edge := by
  simp only [endsIn?, Edge.rename, Containment.itemIn?_map hf]
  cases containment.itemIn? scope edge.source with
  | none => rfl
  | some source =>
      cases containment.itemIn? scope edge.target with
      | none => rfl
      | some target =>
          simp only [Option.map_some, Option.bind_eq_bind, Option.bind_some,
            lastIndex?_rename hf]

/-- The graph of a scope does not know the ids of its boxes. -/
theorem scopeGraph_rename (hf : Function.Injective f)
    (add : LayeredGraph α → ℕ → ℕ → LayeredGraph α)
    (containment : Containment) (scope : Option String)
    (items : List (Item α)) (edges : List Edge) :
    scopeGraph add (containment.map f (Option.map f)) (scope.map f)
        (items.map (Item.rename f)) (edges.map (Edge.rename f)) =
      scopeGraph add containment scope items edges := by
  have hends : (edges.map (Edge.rename f)).filterMap
      (endsIn? (containment.map f (Option.map f)) (scope.map f)
        (items.map (Item.rename f))) =
      edges.filterMap (endsIn? containment scope items) := by
    rw [List.filterMap_map]
    exact List.filterMap_congr fun edge _ =>
      endsIn?_rename hf containment scope items edge
  have hsizes : (items.map (Item.rename f)).map Prod.snd =
      items.map Prod.snd := by
    rw [List.map_map]
    rfl
  rw [scopeGraph, scopeGraph, hends, hsizes]

theorem placeItems_rename (hf : Function.Injective f) (items : List (Item α))
    (positions : List (Point α)) :
    placeItems (items.map (Item.rename f)) positions =
      (placeItems items positions).map f id := by
  rw [placeItems, placeItems, ← Keyed.ofList_map hf, List.zipWith_map_left,
    List.map_zipWith]
  rfl

end Layout

/-! ### Renamed layouts -/

def GroupLayout.rename (f : String → String) (layout : GroupLayout α) :
    GroupLayout α :=
  { layout with children := layout.children.map f id }

/-- The layout with other ids; positions, sizes and all orders stay. -/
def DiagramLayout.rename (f : String → String) (layout : DiagramLayout α) :
    DiagramLayout α where
  groups := layout.groups.map f (GroupLayout.rename f)
  topLevel := layout.topLevel.map f id

namespace Layout.Context

variable [Scalar α] [Scalar β] {engine : Layered.Engine α β}
  {settings : LayoutSettings α} {diagram : Diagram}

omit [Scalar β] in
theorem nodeItem?_rename (hf : Function.Injective f) (id : String) :
    (ofDiagram engine settings (diagram.rename f)).nodeItem? (f id) =
      ((ofDiagram engine settings diagram).nodeItem? id).map
        (Item.rename f) := by
  have hsizes : (ofDiagram engine settings (diagram.rename f)).nodeSizes =
      (ofDiagram engine settings diagram).nodeSizes.map f
        (fun size => size) := by
    simp only [ofDiagram, Diagram.rename, ← Keyed.ofList_map hf, List.map_map]
    rfl
  rw [nodeItem?, nodeItem?, hsizes, Keyed.find?_map hf]
  cases (ofDiagram engine settings diagram).nodeSizes.find? id <;> rfl

omit [Scalar β] in
theorem groupSize_rename (hf : Function.Injective f)
    (layouts : Keyed (GroupLayout α)) (id title : String) :
    (ofDiagram engine settings (diagram.rename f)).groupSize
        (layouts.map f (GroupLayout.rename f)) (f id) title =
      (ofDiagram engine settings diagram).groupSize layouts id title := by
  rw [groupSize, groupSize, Keyed.find?_map hf]
  cases layouts.find? id <;> rfl

omit [Scalar β] in
theorem childItem?_rename (hf : Function.Injective f)
    (layouts : Keyed (GroupLayout α)) (child : Group) :
    (ofDiagram engine settings (diagram.rename f)).childItem?
        (layouts.map f (GroupLayout.rename f)) (child.rename f) =
      ((ofDiagram engine settings diagram).childItem? layouts child).map
        (Item.rename f) := by
  have hgroup : (ofDiagram engine settings (diagram.rename f)).diagram.group?
      (child.rename f).id =
        ((ofDiagram engine settings diagram).diagram.group? child.id).map
          (Group.rename f) := Diagram.group?_rename hf diagram child.id
  rw [childItem?, childItem?, hgroup, Option.map_map, Option.map_map]
  congr 1
  funext group
  exact congrArg (Prod.mk (f child.id))
    (groupSize_rename hf layouts child.id group.title)

omit [Scalar β] in
theorem groupItems_rename (hf : Function.Injective f)
    (layouts : Keyed (GroupLayout α)) (group : Group) :
    (ofDiagram engine settings (diagram.rename f)).groupItems
        (layouts.map f (GroupLayout.rename f)) (group.rename f) =
      ((ofDiagram engine settings diagram).groupItems layouts group).map
        (Item.rename f) := by
  have hchildren : (ofDiagram engine settings
      (diagram.rename f)).diagram.childGroups (some (group.rename f).id) =
        ((ofDiagram engine settings diagram).diagram.childGroups
          (some group.id)).map (Group.rename f) :=
    Diagram.childGroups_rename hf diagram (some group.id)
  rw [groupItems, groupItems, hchildren, List.map_append, List.filterMap_map,
    List.map_filterMap, List.map_filterMap]
  congr 1
  · rw [Group.rename, List.filterMap_map]
    exact List.filterMap_congr fun id _ => nodeItem?_rename hf id
  · exact List.filterMap_congr fun child _ => childItem?_rename hf layouts child

omit [Scalar β] in
theorem topItems_rename (hf : Function.Injective f)
    (layouts : Keyed (GroupLayout α)) :
    (ofDiagram engine settings (diagram.rename f)).topItems
        (layouts.map f (GroupLayout.rename f)) =
      ((ofDiagram engine settings diagram).topItems layouts).map
        (Item.rename f) := by
  have hgroups : (ofDiagram engine settings
      (diagram.rename f)).diagram.childGroups none =
        ((ofDiagram engine settings diagram).diagram.childGroups none).map
          (Group.rename f) := Diagram.childGroups_rename hf diagram none
  have hnodes : (ofDiagram engine settings (diagram.rename f)).diagram.topNodes =
      (ofDiagram engine settings diagram).diagram.topNodes.map
        (Node.rename f) := Diagram.topNodes_rename f diagram
  rw [topItems, topItems, hgroups, hnodes, List.map_append, List.map_map,
    List.map_map, List.filterMap_map, List.map_filterMap]
  congr 1
  · refine List.map_congr_left fun group _ => ?_
    exact congrArg (Prod.mk (f group.id))
      (groupSize_rename hf layouts group.id group.title)
  · exact List.filterMap_congr fun node _ => nodeItem?_rename hf node.id

theorem layoutGroup_rename (hf : Function.Injective f) (group : Group)
    (items : List (Item α)) :
    (ofDiagram engine settings (diagram.rename f)).layoutGroup
        (group.rename f) (items.map (Item.rename f)) =
      ((ofDiagram engine settings diagram).layoutGroup group items).map
        (GroupLayout.rename f) := by
  have hgraph : scopeGraph LayeredGraph.addArc
      (ofDiagram engine settings (diagram.rename f)).containment
      (some (group.rename f).id) (items.map (Item.rename f))
      (ofDiagram engine settings (diagram.rename f)).diagram.edges =
        scopeGraph LayeredGraph.addArc
          (ofDiagram engine settings diagram).containment (some group.id)
          items (ofDiagram engine settings diagram).diagram.edges := by
    simp only [ofDiagram, Diagram.containment_rename hf]
    exact scopeGraph_rename hf _ _ (some group.id) items diagram.edges
  have hdirection : (ofDiagram engine settings
      (diagram.rename f)).diagram.directionOf (group.rename f).id =
        (ofDiagram engine settings diagram).diagram.directionOf group.id :=
    Diagram.directionOf_rename hf diagram group.id
  unfold layoutGroup
  dsimp only
  rw [hgraph, hdirection]
  refine bind_eq_map (congrFun Except.map_id _).symm fun placement => ?_
  rw [id, placeItems_rename hf]
  rfl

/-- Induction on the groups that are left, the last of which is laid out first. -/
theorem layoutGroups_rename (hf : Function.Injective f) (groups : List Group) :
    (ofDiagram engine settings (diagram.rename f)).layoutGroups
        (groups.map (Group.rename f)) =
      ((ofDiagram engine settings diagram).layoutGroups groups).map
        (Keyed.map f (GroupLayout.rename f)) := by
  induction groups with
  | nil => rfl
  | cons group others ih =>
      rw [List.map_cons, layoutGroups, layoutGroups]
      refine bind_eq_map ih fun layouts => ?_
      dsimp only
      rw [groupItems_rename hf, List.isEmpty_map]
      split_ifs
      · rfl
      · refine bind_eq_map (layoutGroup_rename hf group _) fun layout => ?_
        exact congrArg Except.ok (Keyed.insert_map hf layouts group.id layout)

theorem layoutTop_rename (hf : Function.Injective f)
    (layouts : Keyed (GroupLayout α)) :
    (ofDiagram engine settings (diagram.rename f)).layoutTop
        (layouts.map f (GroupLayout.rename f)) =
      ((ofDiagram engine settings diagram).layoutTop layouts).map
        (Keyed.map f id) := by
  have hgraph : scopeGraph addLink
      (ofDiagram engine settings (diagram.rename f)).containment none
      (((ofDiagram engine settings diagram).topItems layouts).map
        (Item.rename f))
      (ofDiagram engine settings (diagram.rename f)).diagram.edges =
        scopeGraph addLink (ofDiagram engine settings diagram).containment none
          ((ofDiagram engine settings diagram).topItems layouts)
          (ofDiagram engine settings diagram).diagram.edges := by
    simp only [ofDiagram, Diagram.containment_rename hf]
    exact scopeGraph_rename hf _ _ none _ diagram.edges
  unfold layoutTop
  dsimp only
  rw [topItems_rename hf, hgraph]
  refine bind_eq_map (congrFun Except.map_id _).symm fun placement => ?_
  rw [id, placeItems_rename hf]
  rfl

end Layout.Context

namespace Diagram

open Layout

variable [Scalar α] [Scalar β]

/-- A renaming that keeps all ids apart carries over to the layout. -/
theorem layout_rename_of_injective (hf : Function.Injective f)
    (engine : Layered.Engine α β) (settings : LayoutSettings α)
    (diagram : Diagram) :
    (diagram.rename f).layout engine settings =
      (diagram.layout engine settings).map (DiagramLayout.rename f) := by
  unfold Diagram.layout
  cases settings.fault? with
  | some fault => rfl
  | none =>
      dsimp only
      rw [← mapError_map]
      congr 1
      refine bind_eq_map (Context.layoutGroups_rename hf diagram.groups) ?_
      intro groups
      refine bind_eq_map (Context.layoutTop_rename hf groups) ?_
      intro topLevel
      simp [DiagramLayout.rename, Keyed.reverse, Keyed.map, Except.map, pure,
        Except.pure]

end Diagram

/-! ### Renamings of some ids only -/

/-- A renaming that keeps the given ids apart agrees on them with one that keeps
all ids apart. -/
theorem exists_injective_of_injOn {ids : List String}
    (h : Set.InjOn f {id | id ∈ ids}) :
    ∃ g, Function.Injective g ∧ ∀ id ∈ ids, g id = f id := by
  let embedding : {id | id ∈ ids} ↪ String :=
    ⟨Set.domRestrict {id | id ∈ ids} f, Set.injOn_iff_injective.mp h⟩
  have hfew : Cardinal.mk {id | id ∈ ids} < Cardinal.mk String :=
    lt_of_lt_of_le (Cardinal.lt_aleph0_iff_set_finite.mpr ids.finite_toSet)
      (Cardinal.aleph0_le_mk String)
  obtain ⟨g, hg⟩ :=
    Cardinal.extend_function_of_lt embedding hfew ⟨Equiv.refl String⟩
  exact ⟨g, g.injective, fun id hid => hg ⟨id, hid⟩⟩

namespace Diagram

variable {diagram : Diagram} {g : String → String}

/-- A nested diagram names no ids but those of its nodes and groups. -/
theorem IsNested.rename_congr (h : diagram.IsNested)
    (hedges : diagram.EdgesAttached) (hsame : ∀ id ∈ diagram.ids, g id = f id) :
    diagram.rename g = diagram.rename f := by
  have hgroup : ∀ group ∈ diagram.groups, g group.id = f group.id :=
    fun group hgroup =>
      hsame _ (List.mem_append_left _ (List.mem_map_of_mem hgroup))
  have hnode : ∀ node ∈ diagram.nodes, g node.id = f node.id :=
    fun node hnode =>
      hsame _ (List.mem_append_right _ (List.mem_map_of_mem hnode))
  have haround : ∀ around : Option String,
      (∀ id, around = some id → ∃ group ∈ diagram.groups, group.id = id) →
        around.map g = around.map f := by
    intro around hsome
    cases around with
    | none => rfl
    | some id =>
        obtain ⟨group, hmem, rfl⟩ := hsome id rfl
        exact congrArg some (hgroup group hmem)
  have hnodes : diagram.nodes.map (Node.rename g) =
      diagram.nodes.map (Node.rename f) := by
    refine List.map_congr_left fun node hmem => ?_
    rw [Node.rename, Node.rename, hnode node hmem,
      haround node.group fun id => h.exists_group_of_node hmem]
  have hedges : diagram.edges.map (Edge.rename g) =
      diagram.edges.map (Edge.rename f) := by
    refine List.map_congr_left fun edge hmem => ?_
    obtain ⟨hsource, htarget⟩ := hedges edge hmem
    rw [Edge.rename, Edge.rename, hsame _ hsource, hsame _ htarget]
  have hgroups : diagram.groups.map (Group.rename g) =
      diagram.groups.map (Group.rename f) := by
    refine List.map_congr_left fun group hmem => ?_
    have hmembers : group.members.map g = group.members.map f := by
      refine List.map_congr_left fun id hid => ?_
      obtain ⟨node, hinside, -, rfl⟩ := (h.mem_members_iff hmem).mp hid
      exact hnode node hinside
    rw [Group.rename, Group.rename, hgroup group hmem, hmembers,
      haround group.parent fun id => h.exists_parent_of_mem hmem]
  rw [rename, rename, hnodes, hedges, hgroups]

theorem contentIds_subset_ids (h : diagram.IsNested) {group : Group}
    (hgroup : group ∈ diagram.groups) :
    diagram.contentIds group ⊆ diagram.ids := by
  intro id hid
  rcases List.mem_append.mp hid with hmember | hchild
  · obtain ⟨node, hnode, -, rfl⟩ := (h.mem_members_iff hgroup).mp hmember
    exact List.mem_append_right _ (List.mem_map_of_mem hnode)
  · obtain ⟨child, hmem, rfl⟩ := List.mem_map.mp hchild
    exact List.mem_append_left _
      (List.mem_map_of_mem (mem_childGroups_iff.mp hmem).1)

theorem topIds_subset_ids (diagram : Diagram) :
    diagram.topIds ⊆ diagram.ids := by
  intro id hid
  rcases List.mem_append.mp hid with hgroup | hnode
  · obtain ⟨group, hmem, rfl⟩ := List.mem_map.mp hgroup
    exact List.mem_append_left _
      (List.mem_map_of_mem (mem_childGroups_iff.mp hmem).1)
  · obtain ⟨node, hmem, rfl⟩ := List.mem_map.mp hnode
    exact List.mem_append_right _
      (List.mem_map_of_mem (mem_topNodes_iff.mp hmem).1)

end Diagram

/-- The layout of a nested diagram names no ids but those of the diagram. -/
theorem DiagramLayout.Covers.rename_congr {layout : DiagramLayout α}
    {diagram : Diagram} {g : String → String} (hcovers : layout.Covers diagram)
    (h : diagram.IsNested) (hsame : ∀ id ∈ diagram.ids, g id = f id) :
    layout.rename g = layout.rename f := by
  have hgroups : layout.groups.map g (GroupLayout.rename g) =
      layout.groups.map f (GroupLayout.rename f) := by
    refine Keyed.map_congr fun entry hentry => ?_
    obtain ⟨id, inner⟩ := entry
    have hid : id ∈ layout.groups.ids := List.mem_map_of_mem hentry
    rw [hcovers.groups_ids] at hid
    obtain ⟨group, hfilter, rfl⟩ := List.mem_map.mp hid
    have hgroup := (List.mem_filter.mp hfilter).1
    obtain ⟨hchildren, -⟩ := hcovers.children_ids group hgroup inner
      ((Keyed.find?_eq_some_iff hcovers.groups_nodup).mpr hentry)
    refine ⟨hsame _ (List.mem_append_left _ (List.mem_map_of_mem hgroup)), ?_⟩
    rw [GroupLayout.rename, GroupLayout.rename]
    refine congrArg (GroupLayout.mk inner.size)
      (Keyed.map_congr fun child hchild => ⟨hsame _ ?_, rfl⟩)
    refine Diagram.contentIds_subset_ids h hgroup ?_
    rw [← hchildren]
    exact List.mem_map_of_mem hchild
  have htopLevel : layout.topLevel.map g id = layout.topLevel.map f id := by
    refine Keyed.map_congr fun entry hentry => ⟨hsame _ ?_, rfl⟩
    refine diagram.topIds_subset_ids ?_
    rw [← hcovers.topLevel_ids]
    exact List.mem_map_of_mem hentry
  rw [DiagramLayout.rename, DiagramLayout.rename, hgroups, htopLevel]

namespace Diagram

variable [Scalar α] [Scalar β] {diagram : Diagram}

/-- A nested diagram whose ids are renamed, different ones to different ones, has
the renamed layout, or fails with the same fault. -/
theorem IsNested.layout_rename (h : diagram.IsNested)
    (hedges : diagram.EdgesAttached)
    (hf : Set.InjOn f {id | id ∈ diagram.ids})
    (engine : Layered.Engine α β) (settings : LayoutSettings α) :
    (diagram.rename f).layout engine settings =
      (diagram.layout engine settings).map (DiagramLayout.rename f) := by
  obtain ⟨g, hg, hsame⟩ := exists_injective_of_injOn hf
  rw [← h.rename_congr hedges hsame, layout_rename_of_injective hg]
  cases hlayout : diagram.layout engine settings with
  | error fault => rfl
  | ok layout =>
      exact congrArg Except.ok ((h.covers hlayout).rename_congr h hsame)

/-- The ids of a group and of a node in it are exchanged; ids that the diagram does
not have are all renamed to one. -/
theorem layout_rename_exchanged :
    let diagram :=
      (parse "graph TD\nsubgraph a\nA\nb\nend\na --> A".toList).diagram
    let exchange : String → String := fun id =>
      if id = "a" then "A" else if id = "A" then "a" else
        if id = "b" then "b" else "?"
    (diagram.rename exchange).ids = ["A", "a", "b"] ∧
      ∃ layout, diagram.layout Layered.sugiyama .default = .ok layout ∧
        (diagram.rename exchange).layout Layered.sugiyama .default =
          .ok (layout.rename exchange) := by
  intro diagram exchange
  have hids : diagram.ids = ["a", "A", "b"] := by decide +kernel
  have hinjOn : Set.InjOn exchange {id | id ∈ diagram.ids} := by
    have happart : ∀ id ∈ ["a", "A", "b"], ∀ other ∈ ["a", "A", "b"],
        exchange id = exchange other → id = other := by decide
    rw [hids]
    exact fun id hid other hother => happart id hid other hother
  have hsome : (diagram.layout Layered.sugiyama .default).toOption.isSome := by
    decide +kernel
  have hrename := (isNested_parse _).layout_rename (edgesAttached_parse _)
    hinjOn Layered.sugiyama .default
  refine ⟨by decide +kernel, ?_⟩
  cases hlayout : diagram.layout Layered.sugiyama .default with
  | error fault => simp [hlayout, Except.toOption] at hsome
  | ok layout =>
      refine ⟨layout, rfl, hrename.trans ?_⟩
      rw [hlayout]
      rfl

end Diagram

end Flowchart
