import Flowchart.Proofs.AccountedStatements
import Flowchart.Proofs.References

/-!
# The first definition of a node

A draft takes in each mention of a node as it comes: it adds the node, gives it
a definition, moves it into a group, or leaves a note on a second definition.
After every statement its nodes are the ones that the references so far describe
when they are read as a whole.
-/

namespace Flowchart

open Body

/-- The nodes are the ones that the statements of the body name, and there is a
note on each definition that differs from the first one. -/
structure Parsed.NamesNodes (parsed : Parsed) (body : List Entry) : Prop where
  nodes_eq : parsed.diagram.nodes =
    (nodeIds (parsed.diagram.groups.map Group.id) (references body)).map
      (nodeOf (parsed.diagram.groups.map Group.id) (references body))
  around_lt : ∀ reference ∈ references body,
    ∀ number ∈ reference.around, number < parsed.diagram.groups.length
  redefinitions_eq : redefinitions parsed.findings =
    (references body).filterMap
      (redefinition? (parsed.diagram.groups.map Group.id) (references body))

namespace Draft

/-- Changing one node of a draft. -/
theorem nodes_updateNode {draft : Draft} {ids : List String} {name : String}
    {old new : String → Draft.Node} {change : Draft.Node → Draft.Node}
    (hnodes : draft.nodes = ids.map old) (hid : ∀ id, (old id).id = id)
    (hname : change (old name) = new name)
    (hother : ∀ id, id ≠ name → old id = new id) :
    (draft.updateNode name change).nodes = ids.map new := by
  rw [updateNode, hnodes, List.map_map]
  apply List.map_congr_left
  intro id _
  rw [Function.comp_apply, hid]
  by_cases hsame : id = name
  · rw [if_pos hsame, hsame, hname]
  · rw [if_neg hsame, hother id hsame]

/-- What the statements so far say about the nodes. -/
structure HasNamed (draft : Draft) (references : List Reference) : Prop where
  nodes_eq : draft.nodes =
    (nodeIds draft.groupIds references).map
      (draftNodeOf draft.groupIds references)
  around_lt : ∀ reference ∈ references,
    ∀ number ∈ reference.around, number < draft.groupIds.length
  redefinitions_eq : redefinitions draft.findings =
    references.filterMap (redefinition? draft.groupIds references)

theorem hasNamed_initial (direction : Direction) :
    HasNamed { direction := direction } [] :=
  ⟨rfl, by simp, rfl⟩

variable {draft : Draft} {references : List Reference}

/-- The number is that of the innermost group that is open. -/
def IsAround (draft : Draft) (around : Option ℕ) : Prop :=
  draft.stack.head?.map some = around.map (draft.groupIds[·]?)

theorem KeepsGroups.isAround {next : Draft} (h : KeepsGroups draft next)
    {around : Option ℕ} (haround : draft.IsAround around) :
    next.IsAround around := by
  rw [IsAround, h.stack_eq, groupIds_of_outlines h.outlines_eq]
  exact haround

theorem IsAround.head?_eq {around : Option ℕ} (h : draft.IsAround around) :
    draft.stack.head? = around.bind (draft.groupIds[·]?) := by
  rw [IsAround] at h
  cases around with
  | none => simpa using h
  | some number =>
      obtain ⟨group, hgroup, hnumber⟩ := Option.map_eq_some_iff.mp h
      rw [hgroup, hnumber]
      rfl

namespace HasNamed

theorem congr (h : draft.HasNamed references) {next : Draft}
    (hnodes : next.nodes = draft.nodes) (hids : next.groupIds = draft.groupIds)
    (hfindings : redefinitions next.findings = redefinitions draft.findings) :
    next.HasNamed references := by
  constructor
  · rw [hnodes, hids, h.nodes_eq]
  · rw [hids]
    exact h.around_lt
  · rw [hfindings, hids, h.redefinitions_eq]

theorem report (h : draft.HasNamed references) {finding : Finding}
    (hcode : redefinitions [finding] = []) :
    (draft.report finding).HasNamed references :=
  h.congr rfl rfl (by simp [Draft.report, hcode])

theorem closeGroup (h : draft.HasNamed references) (span : Span) :
    (draft.closeGroup span).HasNamed references := by
  unfold Draft.closeGroup
  split
  · exact h.report rfl
  · exact h.congr rfl rfl rfl

theorem setDirection (h : draft.HasNamed references) (direction : Direction) :
    (draft.setDirection direction).HasNamed references := by
  unfold Draft.setDirection
  split
  · exact h.congr rfl rfl rfl
  · exact h.congr rfl (groupIds_updateGroup draft _ fun _ => rfl) rfl

theorem addEdges (h : draft.HasNamed references) (edges : List Edge) :
    HasNamed { draft with edges := draft.edges ++ edges } references :=
  h.congr rfl rfl rfl

theorem map_id_nodes (h : draft.HasNamed references) :
    draft.nodes.map (·.id) = nodeIds draft.groupIds references := by
  rw [h.nodes_eq, List.map_map]
  exact List.map_id _

theorem mem_ids (h : draft.HasNamed references) {reference : Reference}
    (hreference : reference ∈ references) :
    reference.mention.id ∈ draft.ids := by
  rw [ids, h.map_id_nodes, List.mem_append, mem_nodeIds]
  by_cases hgroup : reference.mention.id ∈ draft.groupIds
  · exact .inl hgroup
  · exact .inr ⟨⟨reference, hreference, rfl⟩, hgroup⟩

theorem node?_eq_some (h : draft.HasNamed references) {id : String}
    (hid : id ∈ nodeIds draft.groupIds references) :
    draft.node? id = some (draftNodeOf draft.groupIds references id) := by
  have hfind : (nodeIds draft.groupIds references).find? (· == id) =
      some id := by
    cases hfind : (nodeIds draft.groupIds references).find? (· == id) with
    | none => simpa using List.find?_eq_none.mp hfind id hid
    | some found =>
        have hfound := List.find?_some hfind
        rw [beq_iff_eq.mp hfound]
  rw [node?, h.nodes_eq, List.find?_map]
  exact congrArg _ hfind

theorem node?_eq_none (h : draft.HasNamed references) {id : String}
    (hid : id ∉ nodeIds draft.groupIds references) : draft.node? id = none := by
  rw [node?, List.find?_eq_none]
  intro node hnode
  have hmem : node.id ∈ nodeIds draft.groupIds references := by
    rw [← h.map_id_nodes]
    exact List.mem_map_of_mem hnode
  rw [beq_iff_eq]
  rintro rfl
  exact hid hmem

/-- A new group takes an id that no node has been named by. -/
theorem openGroup (h : draft.HasNamed references) (header : GroupHeader)
    (span : Span) : (draft.openGroup header span).HasNamed references := by
  obtain ⟨id, notes, hfree, hid, hopen⟩ := draft.exists_openGroup_eq header span
  have hids : (draft.openGroup header span).groupIds =
      draft.groupIds ++ [id] := by
    simp [hopen, groupIds]
  have hother : ∀ reference ∈ references, reference.mention.id ≠ id := by
    rintro reference hreference rfl
    exact hfree (h.mem_ids hreference)
  rw [hopen] at hids ⊢
  constructor
  · rw [hids, nodeIds_append hother, h.nodes_eq]
    apply List.map_congr_left
    intro node _
    rw [draftNodeOf_append h.around_lt]
  · intro reference hreference number hnumber
    rw [hids, List.length_append]
    exact Nat.lt_add_right _ (h.around_lt reference hreference number hnumber)
  · have hnotes : redefinitions notes = [] := by
      rcases hid with ⟨-, rfl⟩ | rfl <;> rfl
    rw [hids, redefinitions_append, hnotes, List.append_nil, h.redefinitions_eq]
    apply List.filterMap_congr
    intro reference hreference
    rw [redefinition?_append references (hother reference hreference)]

/-! ### One more mention -/

theorem concat (h : draft.HasNamed references) {mention : Mention}
    {around : Option ℕ} (haround : draft.IsAround around) {next : Draft}
    (hids : next.groupIds = draft.groupIds)
    (hnodes : next.nodes =
      (nodeIds draft.groupIds (references ++ [⟨mention, around⟩])).map
        (draftNodeOf draft.groupIds (references ++ [⟨mention, around⟩])))
    (hfindings : redefinitions next.findings =
      redefinitions draft.findings ++
        (redefinition? draft.groupIds (references ++ [⟨mention, around⟩])
          ⟨mention, around⟩).toList) :
    next.HasNamed (references ++ [⟨mention, around⟩]) := by
  constructor
  · rw [hids, hnodes]
  · intro reference hreference number hnumber
    rw [hids]
    rcases List.mem_append.mp hreference with hold | hlast
    · exact h.around_lt reference hold number hnumber
    · rw [List.mem_singleton.mp hlast] at hnumber
      obtain rfl : around = some number := hnumber
      obtain ⟨group, -, hgroup⟩ := Option.map_eq_some_iff.mp haround
      exact (List.getElem?_eq_some_iff.mp hgroup.symm).1
  · have hold : references.filterMap
        (redefinition? draft.groupIds (references ++ [⟨mention, around⟩])) =
          references.filterMap (redefinition? draft.groupIds references) :=
      List.filterMap_congr fun _ hmem => redefinition?_concat _ hmem
    rw [hfindings, hids, List.filterMap_append, hold, h.redefinitions_eq]
    cases hlast : redefinition? draft.groupIds
      (references ++ [⟨mention, around⟩]) ⟨mention, around⟩ <;> simp [hlast]

section Named

variable {mention : Mention} {node : Draft.Node}
  (hnode : node = draftNodeOf draft.groupIds references mention.id)

include hnode

/-- The definition of a node that is there already is taken in as if the node
were named outside of all groups. -/
theorem nodes_define (h : draft.HasNamed references) {definition : Definition}
    (hdefinition : mention.definition = some definition) :
    (draft.define node definition mention.span).nodes =
      (nodeIds draft.groupIds references).map
        (draftNodeOf draft.groupIds (references ++ [⟨mention, none⟩])) := by
  have hother : ∀ id, id ≠ mention.id →
      draftNodeOf draft.groupIds references id =
        draftNodeOf draft.groupIds (references ++ [⟨mention, none⟩]) id :=
    fun _ hid => (draftNodeOf_concat_of_ne hid).symm
  subst hnode
  rw [define]
  cases hfirst : definition? references mention.id with
  | none =>
      simp only [draftNodeOf, hfirst, Option.isSome_none, Bool.not_false,
        if_true]
      refine nodes_updateNode h.nodes_eq (fun _ => rfl) ?_ hother
      simp [draftNodeOf, definition?_concat, home?_concat, hfirst, hdefinition]
  | some first =>
      simp only [draftNodeOf, hfirst, Option.isSome_some, Bool.not_true,
        Bool.false_eq_true, if_false]
      have hsame : ∀ id, draftNodeOf draft.groupIds references id =
          draftNodeOf draft.groupIds (references ++ [⟨mention, none⟩]) id := by
        intro id
        by_cases hid : id = mention.id
        · subst hid
          exact draftNodeOf_congr (by simp [definition?_concat, hfirst])
            (by simp [home?_concat])
        · exact hother id hid
      rw [← funext hsame, ← h.nodes_eq]
      split <;> rfl

/-- A definition is remarked on if it differs from the first one. -/
theorem redefinitions_define {around : Option ℕ} {definition : Definition}
    (hdefinition : mention.definition = some definition)
    (hgroup : mention.id ∉ draft.groupIds) :
    redefinitions (draft.define node definition mention.span).findings =
      redefinitions draft.findings ++
        (redefinition? draft.groupIds (references ++ [⟨mention, around⟩])
          ⟨mention, around⟩).toList := by
  subst hnode
  cases hfirst : definition? references mention.id with
  | none =>
      simp [define, draftNodeOf, hfirst, redefinition?, hdefinition,
        definition?_concat, updateNode]
  | some first =>
      have hdiffers : (first.label ≠ definition.label ∨
          first.shape ≠ definition.shape) ↔ first ≠ definition := by
        cases first
        cases definition
        simp only [Ne, Definition.mk.injEq, ← not_and_or, and_comm]
      have hremark : redefinition? draft.groupIds
          (references ++ [⟨mention, around⟩]) ⟨mention, around⟩ =
            if first = definition then none
            else some (.redefined mention.id mention.span) := by
        simp [redefinition?, hdefinition, definition?_concat, hfirst, hgroup]
      rw [hremark]
      by_cases hsame : first = definition
      · simp [define, draftNodeOf, hfirst, hsame]
      · simp only [define, draftNodeOf, hfirst, Option.isSome_some,
          Bool.not_true, Bool.false_eq_true, if_false, Option.map_some,
          Option.getD_some, hdiffers.mpr hsame, if_true, hsame]
        exact redefinitions_append _ _

/-- A node enters the group that is open unless it lies in one. -/
theorem nodes_adopt (h : draft.HasNamed references) {around : Option ℕ}
    (haround : draft.IsAround around) {next : Draft}
    (hstack : next.stack = draft.stack)
    (hnodes : next.nodes =
      (nodeIds draft.groupIds references).map
        (draftNodeOf draft.groupIds (references ++ [⟨mention, none⟩]))) :
    (next.adopt node).nodes =
      (nodeIds draft.groupIds references).map
        (draftNodeOf draft.groupIds (references ++ [⟨mention, around⟩])) := by
  -- The definition is in already, so that only the group may change.
  have hkept : ∀ id, (id = mention.id → home? references mention.id ≠ none) →
      draftNodeOf draft.groupIds (references ++ [⟨mention, none⟩]) id =
        draftNodeOf draft.groupIds (references ++ [⟨mention, around⟩]) id := by
    intro id hhome
    apply draftNodeOf_congr
    · simp [definition?_concat]
    · by_cases hid : id = mention.id
      · obtain ⟨number, hnumber⟩ := Option.ne_none_iff_exists'.mp (hhome hid)
        simp [home?_concat, hid, hnumber]
      · simp [home?_concat, Ne.symm hid]
  subst hnode
  cases hhome : home? references mention.id with
  | some number =>
      have hlt := lt_of_mem_home? h.around_lt hhome
      have hgroup : (draftNodeOf draft.groupIds references mention.id).group =
          some draft.groupIds[number] := by
        simp [draftNodeOf, hhome, hlt]
      have hsame : ∀ id,
          draftNodeOf draft.groupIds (references ++ [⟨mention, none⟩]) id =
            draftNodeOf draft.groupIds (references ++ [⟨mention, around⟩]) id :=
        fun id => hkept id fun _ => by simp [hhome]
      rw [adopt, hgroup, ← funext hsame]
      exact hnodes
  | none =>
      have hgroup : (draftNodeOf draft.groupIds references mention.id).group =
          none := by
        simp [draftNodeOf, hhome]
      rw [IsAround, ← hstack] at haround
      rw [adopt, hgroup]
      cases hopen : next.stack with
      | nil =>
          obtain rfl : around = none := by simpa [hopen] using haround.symm
          exact hnodes
      | cons group outer =>
          rw [hopen, List.head?_cons, Option.map_some, eq_comm,
            Option.map_eq_some_iff] at haround
          obtain ⟨number, rfl, hnumber⟩ := haround
          refine nodes_updateNode hnodes (fun _ => rfl) ?_
            fun id hid => hkept id fun heq => absurd heq hid
          simp [draftNodeOf, definition?_concat, home?_concat, hhome, hnumber]

end Named

theorem findings_adopt (draft : Draft) (node : Draft.Node) :
    (draft.adopt node).findings = draft.findings := by
  unfold adopt
  split <;> rfl

/-- The node is there already. -/
theorem mention_of_node (h : draft.HasNamed references) {mention : Mention}
    (hmem : mention.id ∈ nodeIds draft.groupIds references) {around : Option ℕ}
    (haround : draft.IsAround around) :
    (draft.mention mention).HasNamed (references ++ [⟨mention, around⟩]) := by
  have hids : (draft.mention mention).groupIds = draft.groupIds :=
    groupIds_of_outlines (draft.keepsGroups_mention mention).outlines_eq
  refine h.concat haround hids ?_ ?_ <;>
    rw [Draft.mention, h.node?_eq_some hmem]
  · rw [nodeIds_concat_of_mem (.inr hmem)]
    cases hdefinition : mention.definition with
    | none =>
        refine h.nodes_adopt rfl haround rfl ?_
        rw [h.nodes_eq]
        apply List.map_congr_left
        intro id _
        apply draftNodeOf_congr
        · simp [definition?_concat, hdefinition]
        · simp [home?_concat]
    | some definition =>
        exact h.nodes_adopt rfl haround
          (draft.keepsGroups_define _ definition mention.span).stack_eq
          (h.nodes_define rfl hdefinition)
  · rw [findings_adopt]
    cases hdefinition : mention.definition with
    | none => simp [redefinition?, hdefinition]
    | some definition =>
        exact redefinitions_define rfl hdefinition (mem_nodeIds.mp hmem).2

/-- The id stands for a group. -/
theorem mention_of_group (h : draft.HasNamed references) {mention : Mention}
    (hgroup : mention.id ∈ draft.groupIds) {around : Option ℕ}
    (haround : draft.IsAround around) :
    draft.HasNamed (references ++ [⟨mention, around⟩]) := by
  refine h.concat haround rfl ?_ (by simp [redefinition?, hgroup])
  rw [nodeIds_concat_of_mem (.inl hgroup), h.nodes_eq]
  apply List.map_congr_left
  intro id hid
  rw [draftNodeOf_concat_of_ne]
  rintro rfl
  exact (mem_nodeIds.mp hid).2 hgroup

theorem nodes_addNode (draft : Draft) (mention : Mention) :
    (draft.addNode mention).nodes = draft.nodes ++
      [match mention.definition with
        | some definition =>
          ⟨mention.id, definition.label, definition.shape, draft.stack.head?,
            true⟩
        | none =>
          ⟨mention.id, mention.id, .rectangle, draft.stack.head?, false⟩] := by
  unfold Draft.addNode
  cases draft.stack <;> rfl

theorem findings_addNode (draft : Draft) (mention : Mention) :
    (draft.addNode mention).findings = draft.findings := by
  unfold Draft.addNode
  cases draft.stack <;> rfl

/-- The node is named for the first time. -/
theorem addNode (h : draft.HasNamed references) {mention : Mention}
    (hgroup : mention.id ∉ draft.groupIds)
    (hnode : mention.id ∉ nodeIds draft.groupIds references) {around : Option ℕ}
    (haround : draft.IsAround around) :
    (draft.addNode mention).HasNamed (references ++ [⟨mention, around⟩]) := by
  have hkeeps := draft.keepsGroups_addNode mention
  have hother : ∀ reference ∈ references,
      reference.mention.id ≠ mention.id := by
    intro reference hreference hid
    exact hnode (mem_nodeIds.mpr ⟨⟨reference, hreference, hid⟩, hgroup⟩)
  obtain ⟨hdefinition, hhome⟩ := definition?_home?_eq_none hother
  have hremark : redefinition? draft.groupIds
      (references ++ [⟨mention, around⟩]) ⟨mention, around⟩ = none := by
    cases hown : mention.definition <;>
      simp [redefinition?, definition?_concat, hdefinition, hown]
  have hnodes : (draft.addNode mention).nodes = draft.nodes ++
      [draftNodeOf draft.groupIds (references ++ [⟨mention, around⟩])
        mention.id] := by
    rw [nodes_addNode, haround.head?_eq]
    cases hown : mention.definition <;>
      simp [draftNodeOf, definition?_concat, home?_concat, hdefinition, hhome,
        hown]
  refine h.concat haround (groupIds_of_outlines hkeeps.outlines_eq) ?_
    (by simp [hremark, findings_addNode])
  rw [hnodes, nodeIds_concat_of_not_mem hgroup hnode, List.map_append,
    h.nodes_eq]
  congr 1
  apply List.map_congr_left
  intro id hid
  rw [draftNodeOf_concat_of_ne]
  rintro rfl
  exact hnode hid

theorem mention (h : draft.HasNamed references) (mention : Mention)
    {around : Option ℕ} (haround : draft.IsAround around) :
    (draft.mention mention).HasNamed (references ++ [⟨mention, around⟩]) := by
  by_cases hnode : mention.id ∈ nodeIds draft.groupIds references
  · exact h.mention_of_node hnode haround
  · rw [Draft.mention, h.node?_eq_none hnode]
    by_cases hgroup : mention.id ∈ draft.groupIds
    · simp only [hasGroup_iff.mpr hgroup, if_true]
      exact h.mention_of_group hgroup haround
    · have hfree : draft.hasGroup mention.id = false := by
        rw [← Bool.not_eq_true, hasGroup_iff]
        exact hgroup
      simp only [hfree, Bool.false_eq_true, if_false]
      exact h.addNode hgroup hnode haround

/-! ### Chains and statements -/

theorem mentions (h : draft.HasNamed references) (mentions : List Mention)
    {around : Option ℕ} (haround : draft.IsAround around) :
    (draft.mentions mentions).HasNamed
      (references ++ mentions.map (⟨·, around⟩)) := by
  induction mentions generalizing draft references with
  | nil => exact (List.append_nil references).symm ▸ h
  | cons mention others ih =>
      have hnext := (draft.keepsGroups_mention mention).isAround haround
      rw [List.map_cons, List.append_cons]
      exact ih (h.mention mention haround) hnext

theorem addLinks (h : draft.HasNamed references) (sources : List Mention)
    (links : List (Link × List Mention)) {around : Option ℕ}
    (haround : draft.IsAround around) :
    (draft.addLinks sources links).HasNamed
      (references ++ (links.flatMap Prod.snd).map (⟨·, around⟩)) := by
  induction links generalizing draft references sources with
  | nil => exact (List.append_nil references).symm ▸ h
  | cons entry rest ih =>
      obtain ⟨link, targets⟩ := entry
      have hnext := (draft.keepsGroups_mentions targets).isAround haround
      have hnamed := (h.mentions targets haround).addEdges
        (edgesBetween link sources targets)
      rw [List.flatMap_cons, List.map_append, ← List.append_assoc]
      exact ih hnamed targets hnext

theorem addChain (h : draft.HasNamed references) (chain : Chain)
    {around : Option ℕ} (haround : draft.IsAround around) :
    (draft.addChain chain).HasNamed
      (references ++ chain.mentions.map (⟨·, around⟩)) := by
  have hhead := (draft.keepsGroups_mentions chain.head).isAround haround
  rw [Chain.mentions, List.map_append, ← List.append_assoc]
  exact (h.mentions chain.head haround).addLinks chain.head chain.links hhead

theorem enter (h : draft.HasNamed references) (entry : Entry)
    {around : Option ℕ} (haround : draft.IsAround around) :
    (draft.enter entry).HasNamed
      (references ++ entry.mentions.map (⟨·, around⟩)) := by
  have hsilent {next : Draft} (hnext : next.HasNamed references) :
      next.HasNamed (references ++ ([] : List Mention).map (⟨·, around⟩)) := by
    rw [List.map_nil, List.append_nil]
    exact hnext
  obtain ⟨statement, fragment⟩ := entry
  cases statement with
  | none => exact hsilent (h.report rfl)
  | some statement =>
      cases statement with
      | openGroup header => exact hsilent (h.openGroup header fragment.span)
      | closeGroup => exact hsilent (h.closeGroup fragment.span)
      | direction direction => exact hsilent (h.setDirection direction)
      | unsupported keyword => exact hsilent (h.report rfl)
      | chain chain => exact h.addChain chain haround
      | nodes mentions => exact h.mentions mentions haround

theorem closeAll (h : draft.HasNamed references) :
    draft.closeAll.HasNamed references := by
  refine h.congr rfl rfl ?_
  have hmissing : redefinitions (draft.stack.filterMap fun id =>
      (draft.groups.find? (·.id == id)).map fun group =>
        Finding.unterminated group.id group.span) = [] := by
    rw [redefinitions, List.filter_eq_nil_iff]
    intro finding hfinding
    obtain ⟨id, -, hid⟩ := List.mem_filterMap.mp hfinding
    obtain ⟨group, -, rfl⟩ := Option.map_eq_some_iff.mp hid
    simp [Finding.code]
  rw [Draft.closeAll, redefinitions_append, hmissing, List.append_nil]

end HasNamed

theorem hasNamed_behind (direction : Direction) (body : List Entry) :
    (behind direction body).HasNamed (Body.references body) := by
  induction body using List.reverseRecOn with
  | nil => exact hasNamed_initial direction
  | append_singleton body entry ih =>
      rw [behind_concat, references_concat]
      have hopened := (hasOpened_hasRemarked_behind direction body).1
      exact ih.enter entry hopened.head?_stack

theorem namesNodes_closeAll_behind (direction : Direction) (body : List Entry) :
    let draft := (behind direction body).closeAll
    Parsed.NamesNodes ⟨draft.diagram, draft.findings⟩ body := by
  intro closed
  have hnamed : closed.HasNamed (Body.references body) :=
    (hasNamed_behind direction body).closeAll
  have hids : closed.diagram.groups.map Flowchart.Group.id =
      closed.groupIds := by
    simp [diagram, groupIds, Function.comp_def]
  have hlength : closed.diagram.groups.length = closed.groupIds.length := by
    rw [← hids, List.length_map]
  constructor
  · rw [hids]
    have hfinish : Node.finish ∘ draftNodeOf closed.groupIds (references body) =
        nodeOf closed.groupIds (references body) :=
      funext (finish_draftNodeOf _ _)
    rw [diagram, hnamed.nodes_eq, List.map_map, hfinish]
  · rw [hlength]
    exact hnamed.around_lt
  · rw [hids]
    exact hnamed.redefinitions_eq

end Draft

namespace Diagram

/-- The first definition of a node counts, whatever statements there are, and so
in the diagram of every text. -/
theorem parse_namesNodes :
    (∀ (direction : Direction) (body : List Entry),
      let draft := (Draft.behind direction body).closeAll
      Parsed.NamesNodes ⟨draft.diagram, draft.findings⟩ body) ∧
    ∀ source : List Char,
      (parse source).NamesNodes ((sourceBody source).map .ofFragment) := by
  refine ⟨Draft.namesNodes_closeAll_behind, ?_⟩
  intro source
  rw [parse_eq_assemble, assemble_eq_closeAll]
  exact Draft.namesNodes_closeAll_behind _ _

end Diagram

end Flowchart
