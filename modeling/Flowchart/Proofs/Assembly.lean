import Flowchart.Proofs.DraftIds
import Flowchart.Proofs.Nesting

/-!
# Reading keeps a diagram nested

Statements may come in any order: a group may ask for the id of a node, a node
may be named long before the group that takes it in, and groups may never be
closed.  The invariant of a draft says that ids are distinct, that members agree
with the groups of the nodes, and that everything a stack or an edge names is
there.  Every statement keeps it, and so the diagram in the end is nested and
its edges are attached.
-/

namespace Flowchart.Draft

/-! ### The invariant -/

/-- What holds of a draft between two statements. -/
structure IsSound (draft : Draft) : Prop where
  ids_nodup : draft.ids.Nodup
  members_perm : ∀ group ∈ draft.groups,
    group.members.Perm (draft.inside group.id)
  group_mem : ∀ node ∈ draft.nodes, ∀ id, node.group = some id →
    id ∈ draft.groupIds
  parent_mem : ∀ i group, draft.groups[i]? = some group →
    ∀ id, group.parent = some id → id ∈ draft.groupIds.take i
  stack_mem : ∀ id ∈ draft.stack, id ∈ draft.groupIds
  edges_mem : ∀ edge ∈ draft.edges,
    edge.source ∈ draft.ids ∧ edge.target ∈ draft.ids

theorem isSound_initial (direction : Direction) :
    ({ direction := direction } : Draft).IsSound := by
  constructor <;> simp [ids, groupIds]

namespace IsSound

variable {draft : Draft}

theorem nodeIds_nodup (h : draft.IsSound) :
    (draft.nodes.map (·.id)).Nodup :=
  (List.nodup_append.mp h.ids_nodup).2.1

theorem report (h : draft.IsSound) (finding : Finding) :
    (draft.report finding).IsSound :=
  ⟨h.ids_nodup, h.members_perm, h.group_mem, h.parent_mem, h.stack_mem,
    h.edges_mem⟩

end IsSound

/-! ### Changes that move nothing -/

theorem groupIds_updateGroup (draft : Draft) (id : String)
    {change : Draft.Group → Draft.Group}
    (hid : ∀ group, (change group).id = group.id) :
    (draft.updateGroup id change).groupIds = draft.groupIds := by
  simp only [groupIds, updateGroup, List.map_map]
  apply List.map_congr_left
  intro group _
  by_cases hgroup : group.id = id <;> simp [hgroup, hid]

theorem nodeIds_updateNode (draft : Draft) (id : String)
    {change : Draft.Node → Draft.Node}
    (hid : ∀ node, (change node).id = node.id) :
    (draft.updateNode id change).nodes.map (·.id) =
      draft.nodes.map (·.id) := by
  simp only [updateNode, List.map_map]
  apply List.map_congr_left
  intro node _
  by_cases hnode : node.id = id <;> simp [hnode, hid]

theorem ids_updateGroup (draft : Draft) (id : String)
    {change : Draft.Group → Draft.Group}
    (hid : ∀ group, (change group).id = group.id) :
    (draft.updateGroup id change).ids = draft.ids := by
  unfold ids
  rw [groupIds_updateGroup draft id hid]
  rfl

theorem ids_updateNode (draft : Draft) (id : String)
    {change : Draft.Node → Draft.Node}
    (hid : ∀ node, (change node).id = node.id) :
    (draft.updateNode id change).ids = draft.ids := by
  unfold ids
  rw [nodeIds_updateNode draft id hid]
  rfl

theorem inside_updateNode (draft : Draft) (id group : String)
    {change : Draft.Node → Draft.Node}
    (hid : ∀ node, (change node).id = node.id)
    (hgroup : ∀ node, (change node).group = node.group) :
    (draft.updateNode id change).inside group = draft.inside group := by
  have hpair : ∀ node : Draft.Node,
      (if node.id = id then change node else node).group = node.group ∧
        (if node.id = id then change node else node).id = node.id := by
    intro node
    by_cases hnode : node.id = id <;> simp [hnode, hid, hgroup]
  simp [inside, updateNode, List.filter_map, Function.comp_def, hpair]

namespace IsSound

variable {draft : Draft}

theorem parent_mem_updateGroup (h : draft.IsSound) (id : String)
    {change : Draft.Group → Draft.Group}
    (hparent : ∀ group, (change group).parent = group.parent) :
    ∀ i group, (draft.updateGroup id change).groups[i]? = some group →
      ∀ outer, group.parent = some outer →
        outer ∈ draft.groupIds.take i := by
  intro i group hgroup outer houter
  simp only [Draft.updateGroup, List.getElem?_map,
    Option.map_eq_some_iff] at hgroup
  obtain ⟨old, hold, rfl⟩ := hgroup
  refine h.parent_mem i old hold outer ?_
  by_cases heq : old.id = id
  · simpa [heq, hparent] using houter
  · simpa [heq] using houter

theorem updateNode (h : draft.IsSound) (id : String)
    {change : Draft.Node → Draft.Node}
    (hid : ∀ node, (change node).id = node.id)
    (hgroup : ∀ node, (change node).group = node.group) :
    (draft.updateNode id change).IsSound := by
  have hids := ids_updateNode draft id hid
  constructor
  · rw [hids]
    exact h.ids_nodup
  · intro group hmem
    rw [inside_updateNode draft id group.id hid hgroup]
    exact h.members_perm group hmem
  · intro node hnode around haround
    obtain ⟨old, hold, rfl⟩ := List.mem_map.mp hnode
    refine h.group_mem old hold around ?_
    by_cases hold : old.id = id
    · simpa [hold, hgroup] using haround
    · simpa [hold] using haround
  · exact h.parent_mem
  · exact h.stack_mem
  · rw [hids]
    exact h.edges_mem

theorem updateGroup (h : draft.IsSound) (id : String)
    {change : Draft.Group → Draft.Group}
    (hid : ∀ group, (change group).id = group.id)
    (hmembers : ∀ group, (change group).members = group.members)
    (hparent : ∀ group, (change group).parent = group.parent) :
    (draft.updateGroup id change).IsSound := by
  have hids := ids_updateGroup draft id hid
  have hgroupIds := groupIds_updateGroup draft id hid
  constructor
  · rw [hids]
    exact h.ids_nodup
  · intro group hgroup
    obtain ⟨old, hold, rfl⟩ := List.mem_map.mp hgroup
    have hperm := h.members_perm old hold
    by_cases heq : old.id = id
    · rw [if_pos heq, hmembers, hid]
      exact hperm
    · rw [if_neg heq]
      exact hperm
  · rw [hgroupIds]
    exact h.group_mem
  · rw [hgroupIds]
    exact h.parent_mem_updateGroup id hparent
  · rw [hgroupIds]
    exact h.stack_mem
  · rw [hids]
    exact h.edges_mem

theorem define (h : draft.IsSound) (node : Draft.Node)
    (definition : Definition) (span : Span) :
    (draft.define node definition span).IsSound := by
  unfold Draft.define
  split
  · exact h.updateNode node.id (fun _ => rfl) (fun _ => rfl)
  · split
    · exact h.report _
    · exact h

theorem setDirection (h : draft.IsSound) (direction : Direction) :
    (draft.setDirection direction).IsSound := by
  unfold Draft.setDirection
  split
  · exact ⟨h.ids_nodup, h.members_perm, h.group_mem, h.parent_mem,
      h.stack_mem, h.edges_mem⟩
  · exact h.updateGroup _ (fun _ => rfl) (fun _ => rfl) (fun _ => rfl)

theorem closeGroup (h : draft.IsSound) (span : Span) :
    (draft.closeGroup span).IsSound := by
  unfold Draft.closeGroup
  split
  · exact h.report _
  next innermost outer hstack =>
    refine ⟨h.ids_nodup, h.members_perm, h.group_mem, h.parent_mem, ?_,
      h.edges_mem⟩
    intro id hid
    apply h.stack_mem
    rw [hstack]
    exact List.mem_cons_of_mem innermost hid

end IsSound

/-! ### Opening groups -/

theorem claimId_not_mem (draft : Draft) (requested : String) (span : Span) :
    (draft.claimId requested span).1 ∉ draft.ids := by
  cases htaken : draft.isTaken requested with
  | false =>
      rw [claimId_of_free span htaken]
      exact isTaken_eq_false_iff.mp htaken
  | true =>
      obtain ⟨number, hfirst, hclaim⟩ := claimId_of_taken span htaken
      rw [hclaim]
      exact isTaken_eq_false_iff.mp hfirst.free

theorem IsSound.claimId {draft : Draft} (h : draft.IsSound)
    (requested : String) (span : Span) :
    (draft.claimId requested span).2.IsSound := by
  unfold Draft.claimId
  split
  · exact h.report _
  · exact h

theorem claimId_frame (draft : Draft) (requested : String) (span : Span) :
    (draft.claimId requested span).2.ids = draft.ids ∧
      (draft.claimId requested span).2.stack = draft.stack := by
  unfold claimId
  split
  · exact ⟨rfl, rfl⟩
  · exact ⟨rfl, rfl⟩

/-- A new group gets a free id and stands behind all others, so also behind the
open one around it. -/
theorem IsSound.pushGroup {draft : Draft} (h : draft.IsSound)
    {group : Draft.Group} (hid : group.id ∉ draft.ids)
    (hmembers : group.members = [])
    (hparent : group.parent = draft.stack.head?) :
    ({ draft with
      groups := draft.groups ++ [group]
      stack := group.id :: draft.stack } : Draft).IsSound := by
  have hgroupIds : ∀ id ∈ draft.groupIds, id ≠ group.id := by
    rintro id hmem rfl
    exact hid (mem_ids_of_mem_groupIds hmem)
  have hinside : draft.inside group.id = [] := by
    simp only [inside, List.map_eq_nil_iff, List.filter_eq_nil_iff,
      decide_eq_true_eq]
    intro node hnode haround
    exact hgroupIds _ (h.group_mem node hnode group.id haround) rfl
  constructor
  · have hperm : (draft.groupIds ++ [group.id] ++
        draft.nodes.map (·.id)).Perm (group.id :: draft.ids) := by
      simp [ids, List.perm_middle]
    simpa [ids, groupIds] using
      hperm.nodup_iff.mpr (List.nodup_cons.mpr ⟨hid, h.ids_nodup⟩)
  · intro other hother
    rcases List.mem_append.mp hother with hold | hnew
    · exact h.members_perm other hold
    · rw [List.mem_singleton.mp hnew, hmembers]
      exact (List.Perm.of_eq hinside).symm
  · intro node hnode around haround
    have hmem := h.group_mem node hnode around haround
    simpa [groupIds] using Or.inl hmem
  · intro i other hother around haround
    have hlength : draft.groupIds.length = draft.groups.length := by
      simp [groupIds]
    by_cases hi : i < draft.groups.length
    · rw [List.getElem?_append_left hi] at hother
      have htake : (draft.groupIds ++ [group.id]).take i =
          draft.groupIds.take i :=
        List.take_append_of_le_length (by omega)
      have hmem := h.parent_mem i other hother around haround
      rw [← htake] at hmem
      simpa [groupIds] using hmem
    · have hindex : i = draft.groups.length := by
        have := (List.getElem?_eq_some_iff.mp hother).1
        simp only [List.length_append, List.length_singleton] at this
        omega
      subst i
      have hgroup : group = other := by simpa using hother
      subst other
      rw [hparent] at haround
      have hmem := h.stack_mem around (List.mem_of_head? haround)
      simpa [groupIds] using hmem
  · intro id hmem
    rcases List.mem_cons.mp hmem with rfl | hstack
    · simp [groupIds]
    · simpa [groupIds] using Or.inl (h.stack_mem id hstack)
  · have hsubset : ∀ id ∈ draft.ids, id ∈ draft.groupIds ++ [group.id] ++
        draft.nodes.map (·.id) := by
      intro id hmem
      simp only [ids, List.mem_append] at hmem ⊢
      exact hmem.imp_left Or.inl
    intro edge hedge
    obtain ⟨hsource, htarget⟩ := h.edges_mem edge hedge
    simpa [ids, groupIds] using
      And.intro (hsubset edge.source hsource) (hsubset edge.target htarget)

theorem IsSound.openGroup {draft : Draft} (h : draft.IsSound)
    (header : GroupHeader) (span : Span) :
    (draft.openGroup header span).IsSound := by
  let requested :=
    header.id.getD (String.ofList
      (Label.slug ((header.title <|> header.id).getD "").toList))
  obtain ⟨hids, hstack⟩ := draft.claimId_frame requested span
  apply (h.claimId requested span).pushGroup
  · rw [hids]
    exact draft.claimId_not_mem requested span
  · rfl
  · rfl

/-! ### Nodes entering groups -/

theorem groupIds_addMember (draft : Draft) (group node : String) :
    (draft.addMember group node).groupIds = draft.groupIds :=
  groupIds_updateGroup draft group fun _ => rfl

theorem ids_addMember (draft : Draft) (group node : String) :
    (draft.addMember group node).ids = draft.ids :=
  ids_updateGroup draft group fun _ => rfl

/-- If one node has entered the group, listing it makes the members agree with
the nodes again. -/
theorem members_perm_addMember {draft : Draft} (h : draft.IsSound)
    {group node : String} {now : String → List String}
    (hat : (draft.inside group ++ [node]).Perm (now group))
    (hother : ∀ other, other ≠ group → now other = draft.inside other) :
    ∀ entry ∈ (draft.addMember group node).groups,
      entry.members.Perm (now entry.id) := by
  intro entry hentry
  obtain ⟨old, hold, rfl⟩ := List.mem_map.mp hentry
  have hperm := h.members_perm old hold
  by_cases heq : old.id = group
  · rw [if_pos heq]
    subst heq
    exact (hperm.append_right [node]).trans hat
  · rw [if_neg heq, hother old.id heq]
    exact hperm

theorem nodes_updateNode_of_split {draft : Draft} {node : Draft.Node}
    {before after : List Draft.Node} {change : Draft.Node → Draft.Node}
    (hnodup : (draft.nodes.map (·.id)).Nodup)
    (hsplit : draft.nodes = before ++ node :: after) :
    (draft.updateNode node.id change).nodes =
      before ++ change node :: after := by
  rw [hsplit, List.map_append, List.map_cons, List.nodup_middle,
    List.nodup_cons] at hnodup
  have hother : ∀ other ∈ before ++ after, other.id ≠ node.id := by
    intro other hmem heq
    apply hnodup.1
    rw [← heq, ← List.map_append]
    exact List.mem_map_of_mem hmem
  have hkeep : ∀ part : List Draft.Node, part ⊆ before ++ after →
      (part.map fun other =>
        if other.id = node.id then change other else other) = part := by
    intro part hpart
    have hsame : ∀ other ∈ part,
        (if other.id = node.id then change other else other) = id other :=
      fun other hmem => if_neg (hother other (hpart hmem))
    rw [List.map_congr_left hsame, List.map_id]
  simp [updateNode, hsplit, hkeep before, hkeep after]

theorem ids_adopt (draft : Draft) (node : Draft.Node) :
    (draft.adopt node).ids = draft.ids := by
  unfold adopt
  split
  · rw [ids_addMember]
    exact ids_updateNode draft node.id fun _ => rfl
  · rfl

theorem inside_updateNode_group {draft : Draft} (h : draft.IsSound)
    {node : Draft.Node} (hnode : node ∈ draft.nodes)
    (houtside : node.group = none) (group : String) :
    let entered := draft.updateNode node.id ({ · with group := some group })
    (draft.inside group ++ [node.id]).Perm (entered.inside group) ∧
      ∀ other, other ≠ group → entered.inside other = draft.inside other := by
  intro entered
  obtain ⟨before, after, hsplit⟩ := List.append_of_mem hnode
  have hnodes : entered.nodes =
      before ++ { node with group := some group } :: after :=
    nodes_updateNode_of_split h.nodeIds_nodup hsplit
  constructor
  · let ahead := (before.filter (·.group = some group)).map (·.id)
    let behind := (after.filter (·.group = some group)).map (·.id)
    have hperm : (ahead ++ node.id :: behind).Perm
        (node.id :: (ahead ++ behind)) :=
      List.perm_middle
    simp only [inside, hnodes, hsplit, List.filter_append, List.map_append,
      List.filter_cons, houtside]
    simpa using (List.perm_append_singleton _ _).trans hperm.symm
  · intro other hother
    simp [inside, hnodes, hsplit, houtside, hother.symm]

/-- The node may have been given a label since it was looked up, but it still
lies where it lay. -/
theorem IsSound.adopt {draft : Draft} (h : draft.IsSound)
    {node entry : Draft.Node} (hentry : entry ∈ draft.nodes)
    (hid : entry.id = node.id) (hgroup : entry.group = node.group) :
    (draft.adopt node).IsSound := by
  have hids := draft.ids_adopt node
  revert hids
  unfold Draft.adopt
  split
  next group outer houtside hstack =>
    intro hids
    let entered := draft.updateNode node.id ({ · with group := some group })
    have hmem : group ∈ draft.groupIds := by
      apply h.stack_mem
      simp [hstack]
    have hgroupIds : (entered.addMember group node.id).groupIds =
        draft.groupIds :=
      groupIds_addMember entered group node.id
    have hinside := inside_updateNode_group h hentry
      (hgroup.trans houtside) group
    rw [hid] at hinside
    constructor
    · rw [hids]
      exact h.ids_nodup
    · exact members_perm_addMember h hinside.1 hinside.2
    · rw [hgroupIds]
      intro other hother around haround
      obtain ⟨old, hold, rfl⟩ := List.mem_map.mp hother
      by_cases heq : old.id = node.id
      · rw [if_pos heq] at haround
        cases haround
        exact hmem
      · rw [if_neg heq] at haround
        exact h.group_mem old hold around haround
    · rw [hgroupIds]
      exact h.parent_mem_updateGroup group fun _ => rfl
    · rw [hgroupIds]
      exact h.stack_mem
    · rw [hids]
      exact h.edges_mem
  · exact fun _ => h

theorem exists_addNode_eq (draft : Draft) (mention : Mention) :
    ∃ node : Draft.Node, node.id = mention.id ∧
      node.group = draft.stack.head? ∧
      draft.addNode mention =
        match draft.stack with
        | [] => { draft with nodes := draft.nodes ++ [node] }
        | group :: _ =>
          { draft.addMember group mention.id with
            nodes := draft.nodes ++ [node] } := by
  cases hdefinition : mention.definition with
  | none =>
      refine ⟨⟨mention.id, mention.id, .rectangle, draft.stack.head?, false⟩,
        rfl, rfl, ?_⟩
      cases hstack : draft.stack <;>
        simp [addNode, hdefinition, hstack, addMember, Draft.updateGroup]
  | some definition =>
      refine ⟨⟨mention.id, definition.label, definition.shape,
        draft.stack.head?, true⟩, rfl, rfl, ?_⟩
      cases hstack : draft.stack <;>
        simp [addNode, hdefinition, hstack, addMember, Draft.updateGroup]

theorem ids_addNode (draft : Draft) (mention : Mention) :
    (draft.addNode mention).ids = draft.ids ++ [mention.id] := by
  obtain ⟨node, hid, -, heq⟩ := draft.exists_addNode_eq mention
  rw [heq]
  cases draft.stack with
  | nil => simp [ids, groupIds, hid]
  | cons group outer =>
      have hgroupIds := draft.groupIds_addMember group mention.id
      simp only [groupIds] at hgroupIds
      simp [ids, groupIds, hgroupIds, hid]

theorem IsSound.addNode {draft : Draft} (h : draft.IsSound)
    {mention : Mention} (hfree : mention.id ∉ draft.ids) :
    (draft.addNode mention).IsSound := by
  have hids := draft.ids_addNode mention
  obtain ⟨node, hid, hgroup, heq⟩ := draft.exists_addNode_eq mention
  have hnodup : (draft.addNode mention).ids.Nodup := by
    rw [hids]
    exact List.nodup_append.mpr ⟨h.ids_nodup, List.nodup_singleton _, by
      intro id hmem other hother heq
      rw [heq, List.mem_singleton.mp hother] at hmem
      exact hfree hmem⟩
  have hedges : ∀ edge ∈ draft.edges,
      edge.source ∈ (draft.addNode mention).ids ∧
        edge.target ∈ (draft.addNode mention).ids := by
    intro edge hedge
    rw [hids]
    exact (h.edges_mem edge hedge).imp
      (List.mem_append_left _) (List.mem_append_left _)
  rw [heq] at hnodup hedges ⊢
  have hgroups : ∀ other ∈ draft.nodes ++ [node], ∀ id,
      other.group = some id → id ∈ draft.groupIds := by
    intro other hother id haround
    rcases List.mem_append.mp hother with hold | hnew
    · exact h.group_mem other hold id haround
    · rw [List.mem_singleton.mp hnew, hgroup] at haround
      exact h.stack_mem id (List.mem_of_head? haround)
  cases hstack : draft.stack with
  | nil =>
      simp only [hstack, List.head?_nil] at hnodup hedges hgroup ⊢
      refine ⟨hnodup, ?_, hgroups, h.parent_mem, ?_, hedges⟩
      · intro entry hentry
        simpa [inside, hgroup] using h.members_perm entry hentry
      · simp
  | cons group outer =>
      simp only [hstack, List.head?_cons] at hnodup hedges hgroup ⊢
      have hgroupIds :
          ({ draft.addMember group mention.id with
            nodes := draft.nodes ++ [node] } : Draft).groupIds =
              draft.groupIds :=
        draft.groupIds_addMember group mention.id
      refine ⟨hnodup, ?_, ?_, ?_, ?_, hedges⟩
      · apply members_perm_addMember h
        · simp [inside, hgroup, hid]
        · intro other hother
          simp [inside, hgroup, hother.symm]
      · rw [hgroupIds]
        exact hgroups
      · rw [hgroupIds]
        exact h.parent_mem_updateGroup group fun _ => rfl
      · rw [hgroupIds]
        exact h.stack_mem

/-! ### Naming nodes -/

theorem node?_eq_some {draft : Draft} {id : String} {node : Draft.Node}
    (h : draft.node? id = some node) : node ∈ draft.nodes ∧ node.id = id :=
  ⟨List.mem_of_find?_eq_some h, by simpa using List.find?_some h⟩

theorem node?_eq_none {draft : Draft} {id : String}
    (h : draft.node? id = none) : id ∉ draft.nodes.map (·.id) := by
  simpa [node?] using h

theorem ids_define (draft : Draft) (node : Draft.Node)
    (definition : Definition) (span : Span) :
    (draft.define node definition span).ids = draft.ids := by
  unfold define
  split
  · exact ids_updateNode draft node.id fun _ => rfl
  · split <;> rfl

theorem exists_mem_define {draft : Draft} {node : Draft.Node}
    (hnode : node ∈ draft.nodes) (definition : Definition) (span : Span) :
    ∃ entry ∈ (draft.define node definition span).nodes,
      entry.id = node.id ∧ entry.group = node.group := by
  unfold define
  split
  · exact ⟨_, List.mem_map_of_mem hnode, by simp, by simp⟩
  · split
    · exact ⟨node, hnode, rfl, rfl⟩
    · exact ⟨node, hnode, rfl, rfl⟩

/-- After a node has been named, its id is taken, and no id has been lost. -/
theorem ids_mention (draft : Draft) (mention : Mention) :
    mention.id ∈ (draft.mention mention).ids ∧
      draft.ids ⊆ (draft.mention mention).ids := by
  unfold Draft.mention
  cases hnode : draft.node? mention.id with
  | some node =>
      obtain ⟨hmem, hid⟩ := node?_eq_some hnode
      have htaken : mention.id ∈ draft.ids := by
        rw [← hid]
        exact List.mem_append_right _ (List.mem_map_of_mem hmem)
      simp only [ids_adopt]
      cases mention.definition with
      | none => exact ⟨htaken, List.Subset.refl _⟩
      | some definition =>
          simp only [ids_define]
          exact ⟨htaken, List.Subset.refl _⟩
  | none =>
      dsimp only
      split
      next hgroup =>
        have htaken := mem_ids_of_mem_groupIds (hasGroup_iff.mp hgroup)
        exact ⟨htaken, List.Subset.refl _⟩
      next =>
        rw [ids_addNode]
        exact ⟨by simp, List.subset_append_left _ _⟩

theorem IsSound.mention {draft : Draft} (h : draft.IsSound)
    (mention : Mention) : (draft.mention mention).IsSound := by
  unfold Draft.mention
  cases hnode : draft.node? mention.id with
  | some node =>
      obtain ⟨hmem, -⟩ := node?_eq_some hnode
      cases mention.definition with
      | none => exact h.adopt hmem rfl rfl
      | some definition =>
          obtain ⟨entry, hentry, hid, hgroup⟩ :=
            exists_mem_define hmem definition mention.span
          exact (h.define node definition mention.span).adopt hentry hid hgroup
  | none =>
      dsimp only
      split
      next => exact h
      next hgroup =>
        apply h.addNode
        rw [ids, List.mem_append, ← hasGroup_iff]
        exact not_or.mpr ⟨hgroup, node?_eq_none hnode⟩

theorem IsSound.mentions {draft : Draft} (h : draft.IsSound)
    (mentions : List Mention) : (draft.mentions mentions).IsSound := by
  induction mentions generalizing draft with
  | nil => exact h
  | cons mention others ih => exact ih (h.mention mention)

theorem ids_mentions (draft : Draft) (mentions : List Mention) :
    (∀ mention ∈ mentions, mention.id ∈ (draft.mentions mentions).ids) ∧
      draft.ids ⊆ (draft.mentions mentions).ids := by
  induction mentions generalizing draft with
  | nil => exact ⟨by simp, List.Subset.refl _⟩
  | cons mention others ih =>
      obtain ⟨hnamed, hkept⟩ := draft.ids_mention mention
      obtain ⟨hothers, hrest⟩ := ih (draft.mention mention)
      refine ⟨?_, List.Subset.trans hkept hrest⟩
      intro other hother
      rcases List.mem_cons.mp hother with rfl | hmem
      · exact hrest hnamed
      · exact hothers other hmem

/-! ### Chains -/

theorem IsSound.addEdges {draft : Draft} (h : draft.IsSound) (link : Link)
    {sources targets : List Mention}
    (hsources : ∀ mention ∈ sources, mention.id ∈ draft.ids)
    (htargets : ∀ mention ∈ targets, mention.id ∈ draft.ids) :
    ({ draft with
      edges := draft.edges ++ edgesBetween link sources targets } :
        Draft).IsSound := by
  refine ⟨h.ids_nodup, h.members_perm, h.group_mem, h.parent_mem,
    h.stack_mem, ?_⟩
  intro edge hedge
  rcases List.mem_append.mp hedge with hold | hnew
  · exact h.edges_mem edge hold
  · simp only [edgesBetween, List.mem_flatMap, List.mem_map] at hnew
    obtain ⟨source, hsource, target, htarget, rfl⟩ := hnew
    exact ⟨hsources source hsource, htargets target htarget⟩

theorem IsSound.addLinks {draft : Draft} (h : draft.IsSound)
    {sources : List Mention} {links : List (Link × List Mention)}
    (hsources : ∀ mention ∈ sources, mention.id ∈ draft.ids) :
    (draft.addLinks sources links).IsSound := by
  induction links generalizing draft sources with
  | nil => exact h
  | cons entry rest ih =>
      obtain ⟨link, targets⟩ := entry
      obtain ⟨htargets, hkept⟩ := draft.ids_mentions targets
      have hsound := (h.mentions targets).addEdges link
        (fun mention hmem => hkept (hsources mention hmem)) htargets
      exact ih hsound htargets

theorem IsSound.addChain {draft : Draft} (h : draft.IsSound)
    (chain : Chain) : (draft.addChain chain).IsSound :=
  (h.mentions chain.head).addLinks (draft.ids_mentions chain.head).1

/-! ### Statements -/

theorem IsSound.apply {draft : Draft} (h : draft.IsSound)
    (statement : Statement) (span : Span) :
    (draft.apply statement span).IsSound := by
  cases statement with
  | openGroup header => exact h.openGroup header span
  | closeGroup => exact h.closeGroup span
  | direction direction => exact h.setDirection direction
  | unsupported keyword => exact h.report _
  | chain chain => exact h.addChain chain
  | nodes mentions => exact h.mentions mentions

theorem IsSound.read {draft : Draft} (h : draft.IsSound)
    (fragment : Fragment) : (draft.read fragment).IsSound := by
  unfold Draft.read
  split
  · exact h.apply _ _
  · exact h.report _

theorem IsSound.readAll {draft : Draft} (h : draft.IsSound)
    (body : List Fragment) : (body.foldl Draft.read draft).IsSound := by
  induction body generalizing draft with
  | nil => exact h
  | cons fragment rest ih => exact ih (h.read fragment)

theorem IsSound.closeAll {draft : Draft} (h : draft.IsSound) :
    draft.closeAll.IsSound := by
  refine ⟨h.ids_nodup, h.members_perm, h.group_mem, h.parent_mem, ?_,
    h.edges_mem⟩
  intro id hid
  cases hid

/-! ### The diagram -/

theorem ids_diagram (draft : Draft) : draft.diagram.ids = draft.ids := by
  simp [Diagram.ids, ids, groupIds, diagram, Node.finish, Function.comp_def]

theorem inside_diagram (draft : Draft) (group : String) :
    draft.diagram.inside group = draft.inside group := by
  simp [Diagram.inside, inside, diagram, Node.finish, List.filter_map,
    Function.comp_def]

theorem IsSound.isNested_diagram {draft : Draft} (h : draft.IsSound) :
    draft.diagram.IsNested := by
  have hgroupIds : draft.diagram.groups.map Flowchart.Group.id =
      draft.groupIds := by
    simp [diagram, groupIds, Function.comp_def]
  constructor
  · rw [ids_diagram]
    exact h.ids_nodup
  · intro group hgroup
    obtain ⟨entry, hentry, rfl⟩ := List.mem_map.mp hgroup
    rw [inside_diagram]
    exact h.members_perm entry hentry
  · intro node hnode
    obtain ⟨entry, hentry, rfl⟩ := List.mem_map.mp hnode
    rw [hgroupIds]
    exact h.group_mem entry hentry
  · intro i group hgroup
    simp only [diagram, List.getElem?_map, Option.map_eq_some_iff] at hgroup
    obtain ⟨entry, hentry, rfl⟩ := hgroup
    rw [hgroupIds]
    exact h.parent_mem i entry hentry

theorem IsSound.edgesAttached_diagram {draft : Draft} (h : draft.IsSound) :
    draft.diagram.EdgesAttached := by
  unfold Diagram.EdgesAttached
  rw [ids_diagram]
  exact h.edges_mem

end Flowchart.Draft

namespace Flowchart.Diagram

/-- Whatever is read is the diagram of a sound draft. -/
theorem exists_isSound_parse (source : List Char) :
    ∃ draft : Draft, draft.IsSound ∧
      (parse source).diagram = draft.diagram := by
  unfold parse
  cases Fragment.ofText source with
  | nil => exact ⟨_, Draft.isSound_initial .topBottom, rfl⟩
  | cons header body =>
      exact ⟨_, ((Draft.isSound_initial _).readAll body).closeAll, rfl⟩

theorem isNested_parse (source : List Char) :
    (parse source).diagram.IsNested := by
  obtain ⟨draft, hsound, heq⟩ := exists_isSound_parse source
  rw [heq]
  exact hsound.isNested_diagram

theorem edgesAttached_parse (source : List Char) :
    (parse source).diagram.EdgesAttached := by
  obtain ⟨draft, hsound, heq⟩ := exists_isSound_parse source
  rw [heq]
  exact hsound.edgesAttached_diagram

/-- The ids of a diagram that has been read are distinct, and its edges join
what is there.  Whatever ids are taken, a group that asks for one of them gets
the first free number behind it. -/
theorem parse_ids_distinct_edges_attached (source : List Char) :
    ((parse source).diagram.nodes.map Node.id).Nodup ∧
      ((parse source).diagram.groups.map Group.id).Nodup ∧
      ((parse source).diagram.nodes.map Node.id).Disjoint
        ((parse source).diagram.groups.map Group.id) ∧
      (parse source).diagram.EdgesAttached ∧
      ∀ (draft : Draft) (requested : String) (span : Span),
        ∃ number, draft.IsFirstFree requested number ∧
          draft.freeId? requested = some (Draft.numbered requested number) ∧
          (draft.claimId requested span).1 =
            if draft.isTaken requested then Draft.numbered requested number
            else requested := by
  have hnested := isNested_parse source
  refine ⟨hnested.nodeIds_nodup, hnested.groupIds_nodup, ?_,
    edgesAttached_parse source, ?_⟩
  · intro id hnode hgroup
    exact (List.nodup_append'.mp hnested.ids_nodup).2.2 hgroup hnode
  · intro draft requested span
    obtain ⟨number, hfirst, hfree⟩ := draft.exists_freeId?_eq requested
    refine ⟨number, hfirst, hfree, ?_⟩
    cases htaken : draft.isTaken requested <;>
      simp [Draft.claimId, htaken, hfree]

example :
    ((parse "graph TD\nA --> A_2\nsubgraph A\nend".toList).diagram.groups.map
      Group.id) = ["A_3"] := by
  decide +kernel

/-- A node and the group around it agree about each other, and a group stands
behind the group around it, so that everything lies at a finite depth. -/
theorem parse_membership_agrees (source : List Char) :
    (∀ node ∈ (parse source).diagram.nodes, ∀ id,
      node.group = some id ↔
        ∃ group ∈ (parse source).diagram.groups,
          group.id = id ∧ node.id ∈ group.members) ∧
    (∀ node ∈ (parse source).diagram.nodes,
      ∀ group ∈ (parse source).diagram.groups,
        group.members.count node.id =
          if node.group = some group.id then 1 else 0) ∧
    (∀ group ∈ (parse source).diagram.groups, ∀ id ∈ group.members,
      ∃ node ∈ (parse source).diagram.nodes, node.id = id) ∧
    (∀ (i : ℕ) (group : Group),
      (parse source).diagram.groups[i]? = some group →
        ∀ id, group.parent = some id →
          ∃ j < i, ∃ outer : Group,
            (parse source).diagram.groups[j]? = some outer ∧ outer.id = id) ∧
    (∀ node ∈ (parse source).diagram.nodes,
      ∃ depth, (parse source).diagram.AtDepth depth node.group) ∧
    ∀ group ∈ (parse source).diagram.groups,
      ∃ depth, (parse source).diagram.AtDepth depth group.parent := by
  have hnested := isNested_parse source
  refine ⟨?_, ?_, ?_, ?_, ?_, ?_⟩
  · intro node hnode id
    exact hnested.node_group_iff hnode
  · intro node hnode group hgroup
    exact hnested.count_members hnode hgroup
  · intro group hgroup id hid
    obtain ⟨node, hnode, -, heq⟩ := (hnested.mem_members_iff hgroup).mp hid
    exact ⟨node, hnode, heq⟩
  · intro i group hgroup id haround
    exact hnested.exists_parent hgroup haround
  · intro node hnode
    obtain ⟨depth, -, hdepth⟩ := hnested.exists_depth_of_node hnode
    exact ⟨depth, hdepth⟩
  · intro group hgroup
    obtain ⟨depth, -, hdepth⟩ := hnested.exists_depth_of_group hgroup
    exact ⟨depth, hdepth⟩

/-- The node `A` is named outside of all groups, and two groups deep later. -/
theorem parse_membership_agrees_late_member :
    let diagram :=
      (parse "graph TD\nA --> B\nsubgraph one\nsubgraph two\nA".toList).diagram
    (⟨"A", "A", .rectangle, some "two"⟩ : Node) ∈ diagram.nodes ∧
      (∃ group ∈ diagram.groups, group.id = "two" ∧ "A" ∈ group.members) ∧
      ∃ depth, diagram.AtDepth depth (some "two") := by
  intro diagram
  have hnode : (⟨"A", "A", .rectangle, some "two"⟩ : Node) ∈ diagram.nodes := by
    decide +kernel
  obtain ⟨haround, -, -, -, hdepth, -⟩ :=
    parse_membership_agrees
      "graph TD\nA --> B\nsubgraph one\nsubgraph two\nA".toList
  exact ⟨hnode, (haround _ hnode "two").mp rfl, hdepth _ hnode⟩

end Flowchart.Diagram
