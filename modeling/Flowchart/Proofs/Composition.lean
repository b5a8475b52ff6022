import Flowchart.Conversion
import Flowchart.Proofs.Assembly
import Flowchart.Proofs.LayoutCoverage

/-!
# Graphs that depict diagrams

A graph depicts a diagram if its boxes are the groups and then the nodes, every
box is attached to the group around it, which comes earlier, and its edges are
those of the diagram with distinct ids between boxes of the graph.  Whatever is
composed from a nested diagram depicts it, and for a layout of the diagram
composing never fails.
-/

namespace Flowchart

variable {α β : Type}

/-! ### Edge ids -/

/-- The number of an edge can be read off its id: it ends before the first
character that is no digit. -/
theorem Diagram.digits_edgeId (edge : Edge) (index : ℕ) :
    ((edgeId edge index).toList.drop 1).takeWhile Char.isDigit =
      Nat.toDigits 10 index := by
  have hdigits : ∀ c ∈ Nat.toDigits 10 index, c.isDigit = true :=
    fun c hc => Nat.isDigit_of_mem_toDigits (by decide) (by decide) hc
  have htext : (edgeId edge index).toList =
      'e' :: (Nat.toDigits 10 index ++
        '-' :: (edge.source.toList ++ '-' :: edge.target.toList)) := by
    simp [edgeId, String.toList_append, Nat.toString_eq_repr]
  rw [htext, List.drop_one, List.tail_cons,
    List.takeWhile_append_of_pos hdigits]
  simp

theorem Diagram.edgeId_index_inj {edge other : Edge} {i j : ℕ}
    (h : edgeId edge i = edgeId other j) : i = j := by
  have hdigits : Nat.toDigits 10 i = Nat.toDigits 10 j := by
    rw [← digits_edgeId edge i, ← digits_edgeId other j, h]
  calc
    i = Nat.ofDigitChars 10 (Nat.toDigits 10 i) 0 := by simp
    _ = Nat.ofDigitChars 10 (Nat.toDigits 10 j) 0 := by rw [hdigits]
    _ = j := by simp

/-! ### What a graph shows -/

/-- What a box tells: its id, what it stands for, its label and the group around
it. -/
def GraphNode.record (node : GraphNode α) :
    String × Role × String × Option String :=
  (node.id, node.role, node.label, node.parent)

def GraphEdge.toEdge (edge : GraphEdge) : Edge :=
  ⟨edge.source, edge.target, edge.label, edge.connector⟩

/-- What the boxes of the diagram have to tell: the groups, then the nodes. -/
def Diagram.records (diagram : Diagram) :
    List (String × Role × String × Option String) :=
  diagram.groups.map (fun group =>
    (group.id, .group, group.title, group.parent)) ++
  diagram.nodes.map (fun node =>
    (node.id, .node node.shape, node.label, node.group))

structure Graph.Depicts (graph : Graph α) (diagram : Diagram) : Prop where
  records_eq : graph.nodes.map GraphNode.record = diagram.records
  ids_nodup : (graph.nodes.map GraphNode.id).Nodup
  /-- A box inside a group comes after the group. -/
  parent_before : ∀ (i : ℕ) (node : GraphNode α),
    graph.nodes[i]? = some node → ∀ id, node.parent = some id →
      ∃ j < i, ∃ outer : GraphNode α, graph.nodes[j]? = some outer ∧
        outer.id = id ∧ outer.role = .group
  /-- A box inside a group must not leave it, and others are free. -/
  extent_eq : ∀ node ∈ graph.nodes,
    node.extent = node.parent.map fun _ => .parent
  edges_eq : graph.edges.map GraphEdge.toEdge = diagram.edges
  ends_mem : ∀ edge ∈ graph.edges,
    edge.source ∈ graph.nodes.map GraphNode.id ∧
      edge.target ∈ graph.nodes.map GraphNode.id
  edgeId_eq : ∀ (i : ℕ) (edge : GraphEdge), graph.edges[i]? = some edge →
    edge.id = "e" ++ toString i ++ "-" ++ edge.source ++ "-" ++ edge.target
  edgeIds_nodup : (graph.edges.map GraphEdge.id).Nodup

namespace Diagram

variable {diagram : Diagram} {layout : DiagramLayout α}

theorem map_fst_records (diagram : Diagram) :
    diagram.records.map Prod.fst = diagram.ids := by
  simp [records, ids, Function.comp_def]

theorem IsNested.exists_record_before (h : diagram.IsNested) {i : ℕ}
    {id : String} {role : Role} {label outer : String}
    (hrecord : diagram.records[i]? = some (id, role, label, some outer)) :
    ∃ j < i, ∃ title parent,
      diagram.records[j]? = some (outer, .group, title, parent) := by
  have hgroupRecord : ∀ {j : ℕ} {group : Group},
      diagram.groups[j]? = some group →
        diagram.records[j]? =
          some (group.id, .group, group.title, group.parent) := by
    intro j group hgroup
    have hlength := (List.getElem?_eq_some_iff.mp hgroup).1
    unfold records
    rw [List.getElem?_append_left (by simpa using hlength)]
    simp [hgroup]
  unfold records at hrecord
  rw [List.getElem?_append] at hrecord
  split at hrecord
  next =>
    rw [List.getElem?_map, Option.map_eq_some_iff] at hrecord
    obtain ⟨group, hgroup, heq⟩ := hrecord
    have hparent : group.parent = some outer := by
      simpa using congrArg (·.2.2.2) heq
    obtain ⟨j, hj, around, haround, rfl⟩ := h.exists_parent hgroup hparent
    exact ⟨j, hj, _, _, hgroupRecord haround⟩
  next hlength =>
    rw [List.getElem?_map, Option.map_eq_some_iff] at hrecord
    obtain ⟨node, hnode, heq⟩ := hrecord
    have hparent : node.group = some outer := by
      simpa using congrArg (·.2.2.2) heq
    obtain ⟨group, hgroup, rfl⟩ :=
      h.exists_group_of_node (List.mem_of_getElem? hnode) hparent
    obtain ⟨j, hj⟩ := List.getElem?_of_mem hgroup
    have hjLength := (List.getElem?_eq_some_iff.mp hj).1
    rw [List.length_map] at hlength
    exact ⟨j, by omega, _, _, hgroupRecord hj⟩

/-! ### Composing -/

theorem composeGroup_eq_ok {group : Group} {node : GraphNode α}
    (h : composeGroup layout group = .ok node) :
    node.record = (group.id, .group, group.title, group.parent) ∧
      node.extent = node.parent.map fun _ => .parent := by
  unfold composeGroup at h
  split at h
  next => cases h
  next =>
    cases h
    cases hparent : group.parent <;>
      simp [GraphNode.inside, GraphNode.record]

theorem composeNode_eq_ok {node : Node} {box : GraphNode α}
    (h : composeNode layout node = .ok box) :
    box.record = (node.id, .node node.shape, node.label, node.group) ∧
      box.extent = box.parent.map fun _ => .parent := by
  unfold composeNode at h
  split at h
  next => cases h
  next =>
    cases h
    cases hgroup : node.group <;>
      simp [GraphNode.inside, GraphNode.record]

theorem compose_eq_ok {palette : Palette} {graph : Graph α}
    (h : diagram.compose layout palette = .ok graph) :
    (∃ groups nodes,
      diagram.groups.mapM (composeGroup layout) = .ok groups ∧
        diagram.nodes.mapM (composeNode layout) = .ok nodes ∧
        graph.nodes = groups ++ nodes) ∧
      graph.edges = diagram.edges.zipIdx.map fun (edge, index) =>
        composeEdge palette edge index := by
  obtain ⟨groups, hgroups, hrest⟩ := bind_eq_ok_iff.mp h
  obtain ⟨nodes, hnodes, hresult⟩ := bind_eq_ok_iff.mp hrest
  cases hresult
  exact ⟨⟨groups, nodes, hgroups, hnodes, rfl⟩, rfl⟩

theorem records_compose {palette : Palette} {graph : Graph α}
    (h : diagram.compose layout palette = .ok graph) :
    graph.nodes.map GraphNode.record = diagram.records := by
  obtain ⟨⟨groups, nodes, hgroups, hnodes, heq⟩, -⟩ := compose_eq_ok h
  rw [heq, List.map_append,
    map_eq_of_mapM_eq_ok hgroups fun _ _ hstep => (composeGroup_eq_ok hstep).1,
    map_eq_of_mapM_eq_ok hnodes fun _ _ hstep => (composeNode_eq_ok hstep).1]
  rfl

theorem extent_compose {palette : Palette} {graph : Graph α}
    (h : diagram.compose layout palette = .ok graph)
    {node : GraphNode α} (hnode : node ∈ graph.nodes) :
    node.extent = node.parent.map fun _ => .parent := by
  obtain ⟨⟨groups, nodes, hgroups, hnodes, heq⟩, -⟩ := compose_eq_ok h
  rw [heq] at hnode
  rcases List.mem_append.mp hnode with hgroup | hleaf
  · obtain ⟨group, -, hstep⟩ := exists_of_mem_of_mapM_eq_ok hgroups hgroup
    exact (composeGroup_eq_ok hstep).2
  · obtain ⟨leaf, -, hstep⟩ := exists_of_mem_of_mapM_eq_ok hnodes hleaf
    exact (composeNode_eq_ok hstep).2

theorem getElem?_edges_compose {palette : Palette} {graph : Graph α}
    (h : diagram.compose layout palette = .ok graph) (i : ℕ) :
    graph.edges[i]? =
      diagram.edges[i]?.map fun edge => composeEdge palette edge i := by
  obtain ⟨-, hedges⟩ := compose_eq_ok h
  rw [hedges]
  cases hedge : diagram.edges[i]? <;> simp [hedge]

theorem toEdge_compose {palette : Palette} {graph : Graph α}
    (h : diagram.compose layout palette = .ok graph) :
    graph.edges.map GraphEdge.toEdge = diagram.edges := by
  apply List.ext_getElem?
  intro i
  rw [List.getElem?_map, getElem?_edges_compose h, Option.map_map]
  cases diagram.edges[i]? <;> rfl

theorem edgeIds_nodup_compose {palette : Palette} {graph : Graph α}
    (h : diagram.compose layout palette = .ok graph) :
    (graph.edges.map GraphEdge.id).Nodup := by
  rw [List.nodup_iff_getElem?_ne_getElem?]
  intro i j hij hj heq
  have hi : i < graph.edges.length := by
    rw [List.length_map] at hj
    omega
  have hid : ∀ k (hk : k < graph.edges.length), ∃ edge,
      (graph.edges.map GraphEdge.id)[k]? = some (edgeId edge k) := by
    intro k hk
    rw [List.getElem?_map, getElem?_edges_compose h]
    have hlength : k < diagram.edges.length := by
      rwa [← toEdge_compose h, List.length_map]
    exact ⟨diagram.edges[k], by simp [hlength, composeEdge]⟩
  obtain ⟨first, hfirst⟩ := hid i hi
  obtain ⟨second, hsecond⟩ := hid j (by rwa [List.length_map] at hj)
  rw [hfirst, hsecond] at heq
  have hsame := edgeId_index_inj (Option.some.inj heq)
  omega

theorem IsNested.compose_depicts (h : diagram.IsNested)
    (hattached : diagram.EdgesAttached) {palette : Palette} {graph : Graph α}
    (hcompose : diagram.compose layout palette = .ok graph) :
    graph.Depicts diagram := by
  have hrecords := records_compose hcompose
  have hids : graph.nodes.map GraphNode.id = diagram.ids := by
    rw [← map_fst_records, ← hrecords, List.map_map]
    rfl
  constructor
  · exact hrecords
  · rw [hids]
    exact h.ids_nodup
  · intro i node hnode id hparent
    have hrecord : diagram.records[i]? = some node.record := by
      rw [← hrecords, List.getElem?_map, hnode]
      rfl
    simp only [GraphNode.record, hparent] at hrecord
    obtain ⟨j, hj, title, parent, houter⟩ := h.exists_record_before hrecord
    rw [← hrecords, List.getElem?_map, Option.map_eq_some_iff] at houter
    obtain ⟨outer, houter, heq⟩ := houter
    simp only [GraphNode.record, Prod.mk.injEq] at heq
    exact ⟨j, hj, outer, houter, heq.1, heq.2.1⟩
  · intro node hnode
    exact extent_compose hcompose hnode
  · exact toEdge_compose hcompose
  · intro edge hedge
    rw [hids]
    have hmem : edge.toEdge ∈ diagram.edges := by
      rw [← toEdge_compose hcompose]
      exact List.mem_map_of_mem hedge
    exact hattached edge.toEdge hmem
  · intro i edge hedge
    rw [getElem?_edges_compose hcompose, Option.map_eq_some_iff] at hedge
    obtain ⟨drawn, -, rfl⟩ := hedge
    rfl
  · exact edgeIds_nodup_compose hcompose

theorem exists_compose_eq_ok (h : diagram.IsNested)
    (hcovers : layout.Covers diagram) (palette : Palette) :
    ∃ graph, diagram.compose layout palette = .ok graph := by
  obtain ⟨groups, hgroups⟩ :
      ∃ groups, diagram.groups.mapM (composeGroup layout) = .ok groups := by
    apply exists_mapM_eq_ok
    intro group hgroup
    obtain ⟨box, hbox⟩ := hcovers.exists_boxIn?_group h hgroup
    simp [composeGroup, hbox]
  obtain ⟨nodes, hnodes⟩ :
      ∃ nodes, diagram.nodes.mapM (composeNode layout) = .ok nodes := by
    apply exists_mapM_eq_ok
    intro node hnode
    obtain ⟨box, hbox⟩ := hcovers.exists_boxIn?_node h hnode
    simp [composeNode, hbox]
  exact ⟨_, bind_eq_ok_iff.mpr
    ⟨groups, hgroups, bind_eq_ok_iff.mpr ⟨nodes, hnodes, rfl⟩⟩⟩

/-! ### The whole way -/

/-- Reading promises that diagrams are nested.  Of a nested diagram, a layout
covers everything, so that composing a graph from it never fails. -/
theorem layout_covers_and_composes [Scalar α] [Scalar β]
    (engine : Layered.Engine α β) (settings : LayoutSettings α) :
    (∀ source, (parse source).diagram.IsNested) ∧
      ∀ diagram : Diagram, diagram.IsNested →
        ∀ layout, diagram.layout engine settings = .ok layout →
          layout.Covers diagram ∧
            ∀ palette, ∃ graph,
              diagram.compose layout palette = .ok graph := by
  refine ⟨isNested_parse, ?_⟩
  intro diagram h layout hlayout
  have hcovers := h.covers hlayout
  exact ⟨hcovers, exists_compose_eq_ok h hcovers⟩

/-- A group inside a group, an empty group, and a node that lies nowhere. -/
theorem layout_covers_and_composes_nested :
    let source :=
      "graph TD\nsubgraph a\nsubgraph b\nend\nsubgraph c\nA\nend\nend\nB".toList
    let diagram := (parse source).diagram
    ∃ layout : DiagramLayout Float32,
      diagram.layout Layered.sugiyama .default = .ok layout ∧
        layout.groups.ids = ["a", "c"] ∧ layout.topLevel.ids = ["a", "B"] ∧
        ∀ palette, ∃ graph, diagram.compose layout palette = .ok graph := by
  intro source diagram
  have hsome : (diagram.layout Layered.sugiyama .default).toOption.isSome := by
    decide +kernel
  cases hlayout : diagram.layout Layered.sugiyama .default with
  | error fault => simp [hlayout, Except.toOption] at hsome
  | ok layout =>
      obtain ⟨hnested, hcovers⟩ :=
        layout_covers_and_composes Layered.sugiyama .default
      obtain ⟨hcovered, hcompose⟩ := hcovers diagram (hnested _) layout hlayout
      refine ⟨layout, rfl, ?_, ?_, hcompose⟩
      · rw [hcovered.groups_ids]
        decide +kernel
      · rw [hcovered.topLevel_ids]
        decide +kernel

end Diagram

theorem Settings.convert_eq_ok [Scalar β] {engine : Layered.Engine Float32 β}
    {settings : Settings} {content : List Char} {graph : Graph Float32}
    (h : settings.convert engine content = .ok graph) :
    ∃ layout,
      (Diagram.parse (prepare content)).diagram.layout engine
          settings.layout = .ok layout ∧
        (Diagram.parse (prepare content)).diagram.compose layout
          settings.style.edgePalette = .ok graph := by
  obtain ⟨⟨layout, drawn⟩, hdraw, rfl⟩ := map_eq_ok_iff.mp h
  obtain ⟨found, hlayout, hrest⟩ := bind_eq_ok_iff.mp hdraw
  obtain ⟨composed, hcompose, hresult⟩ := bind_eq_ok_iff.mp hrest
  cases hresult
  exact ⟨layout, hlayout, mapError_eq_ok_iff.mp hcompose⟩

/-- The graph of a text depicts the diagram that is read from it. -/
theorem Settings.convert_depicts [Scalar β] {engine : Layered.Engine Float32 β}
    {settings : Settings} {content : List Char} {graph : Graph Float32}
    (h : settings.convert engine content = .ok graph) :
    graph.Depicts (Diagram.parse (prepare content)).diagram := by
  obtain ⟨layout, -, hcompose⟩ := Settings.convert_eq_ok h
  exact (Diagram.isNested_parse _).compose_depicts
    (Diagram.edgesAttached_parse _) hcompose

theorem Settings.convert_depicts_nested :
    let content :=
      "graph TD\nsubgraph a\nsubgraph b\nA[x]\nend\nend\nA --> a".toList
    ∃ graph, Settings.default.convert Layered.sugiyama content = .ok graph ∧
      graph.Depicts (Diagram.parse (prepare content)).diagram ∧
      graph.nodes.map GraphNode.id = ["a", "b", "A"] := by
  intro content
  have hsome :
      (Settings.default.convert Layered.sugiyama content).toOption.isSome := by
    decide +kernel
  cases hgraph : Settings.default.convert Layered.sugiyama content with
  | error fault => simp [hgraph, Except.toOption] at hsome
  | ok graph =>
      have hdepicts := Settings.convert_depicts hgraph
      refine ⟨graph, rfl, hdepicts, ?_⟩
      have hrecords := congrArg (List.map Prod.fst) hdepicts.records_eq
      rw [Diagram.map_fst_records, List.map_map] at hrecords
      exact hrecords.trans (by decide +kernel)

end Flowchart
