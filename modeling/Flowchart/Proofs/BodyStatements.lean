import Flowchart.Proofs.Assembly
import Flowchart.Proofs.Meaning
import Flowchart.Proofs.OpenGroups

/-!
# The statements of a body

A draft goes through the statements of a body one by one.  Only the statements
that open and end groups change which groups there are and which are open; what
they do depends on the statements in front of them, so every statement is listed
with these.
-/

namespace Flowchart

def GroupHeader.shownTitle (header : GroupHeader) : String :=
  (header.title <|> header.id).getD ""

/-- The id that the group asks for. -/
def GroupHeader.requestedId (header : GroupHeader) : String :=
  header.id.getD (String.ofList (Label.slug header.shownTitle.toList))

namespace Draft

/-! ### Steps that keep the groups -/

/-- The group as it was opened, without what has happened in it since. -/
def Group.outline (group : Draft.Group) : Draft.Group :=
  { group with members := [], direction := none }

/-- The same groups are there and open, and only definitions of nodes have been
remarked on. -/
structure KeepsGroups (draft next : Draft) : Prop where
  stack_eq : next.stack = draft.stack
  outlines_eq : next.groups.map Group.outline = draft.groups.map Group.outline
  findings_eq : ∃ notes, next.findings = draft.findings ++ notes ∧
    ∀ note ∈ notes, note.code = .redefinition

theorem groupIds_of_outlines {draft next : Draft}
    (h : next.groups.map Group.outline = draft.groups.map Group.outline) :
    next.groupIds = draft.groupIds := by
  have hids := congrArg (List.map (·.id)) h
  simpa [groupIds, Group.outline, Function.comp_def] using hids

namespace KeepsGroups

theorem refl (draft : Draft) : KeepsGroups draft draft :=
  ⟨rfl, rfl, [], by simp, by simp⟩

theorem trans {draft next last : Draft} (first : KeepsGroups draft next)
    (second : KeepsGroups next last) : KeepsGroups draft last := by
  obtain ⟨notes, hnotes, hcode⟩ := first.findings_eq
  obtain ⟨more, hmore, hcodes⟩ := second.findings_eq
  refine ⟨second.stack_eq.trans first.stack_eq,
    second.outlines_eq.trans first.outlines_eq, notes ++ more, ?_, ?_⟩
  · rw [hmore, hnotes, List.append_assoc]
  · intro note hnote
    exact (List.mem_append.mp hnote).elim (hcode note) (hcodes note)

end KeepsGroups

theorem keepsGroups_updateGroup (draft : Draft) (id : String)
    {change : Draft.Group → Draft.Group}
    (h : ∀ group, (change group).outline = group.outline) :
    KeepsGroups draft (draft.updateGroup id change) := by
  refine ⟨rfl, ?_, [], (List.append_nil _).symm, by simp⟩
  rw [updateGroup, List.map_map]
  apply List.map_congr_left
  intro group _
  simp only [Function.comp_apply]
  split
  · exact h group
  · rfl

theorem keepsGroups_setDirection (draft : Draft) (direction : Direction) :
    KeepsGroups draft (draft.setDirection direction) := by
  unfold setDirection
  split
  · exact ⟨rfl, rfl, [], by simp, by simp⟩
  · exact draft.keepsGroups_updateGroup _ fun _ => rfl

theorem keepsGroups_addMember (draft : Draft) (group node : String) :
    KeepsGroups draft (draft.addMember group node) :=
  draft.keepsGroups_updateGroup group fun _ => rfl

theorem keepsGroups_define (draft : Draft) (node : Draft.Node)
    (definition : Definition) (span : Span) :
    KeepsGroups draft (draft.define node definition span) := by
  unfold define
  split
  · exact ⟨rfl, rfl, [], by simp [updateNode], by simp⟩
  · split
    · exact ⟨rfl, rfl, [.redefined node.id span], rfl, by simp [Finding.code]⟩
    · exact .refl draft

theorem keepsGroups_adopt (draft : Draft) (node : Draft.Node) :
    KeepsGroups draft (draft.adopt node) := by
  unfold adopt
  split
  · have hnode (change : Draft.Node → Draft.Node) :
        KeepsGroups draft (draft.updateNode node.id change) :=
      ⟨rfl, rfl, [], (List.append_nil _).symm, by simp⟩
    exact (hnode _).trans (keepsGroups_addMember _ _ node.id)
  · exact .refl draft

theorem keepsGroups_addNode (draft : Draft) (mention : Mention) :
    KeepsGroups draft (draft.addNode mention) := by
  have hnodes (next : Draft) (nodes : List Draft.Node) :
      KeepsGroups next { next with nodes := nodes } :=
    ⟨rfl, rfl, [], (List.append_nil _).symm, by simp⟩
  unfold addNode
  cases draft.stack with
  | nil => exact hnodes draft _
  | cons group outer =>
      exact (draft.keepsGroups_addMember group mention.id).trans (hnodes _ _)

theorem keepsGroups_mention (draft : Draft) (mention : Mention) :
    KeepsGroups draft (draft.mention mention) := by
  unfold Draft.mention
  cases draft.node? mention.id with
  | some node =>
      cases mention.definition with
      | none => exact draft.keepsGroups_adopt node
      | some definition =>
          exact (draft.keepsGroups_define node definition mention.span).trans
            (keepsGroups_adopt _ node)
  | none =>
      dsimp only
      split
      · exact .refl draft
      · exact draft.keepsGroups_addNode mention

theorem keepsGroups_mentions (draft : Draft) (mentions : List Mention) :
    KeepsGroups draft (draft.mentions mentions) := by
  induction mentions generalizing draft with
  | nil => exact .refl draft
  | cons mention others ih =>
      exact (draft.keepsGroups_mention mention).trans (ih _)

theorem keepsGroups_addLinks (draft : Draft) (sources : List Mention)
    (links : List (Link × List Mention)) :
    KeepsGroups draft (draft.addLinks sources links) := by
  induction links generalizing draft sources with
  | nil => exact .refl draft
  | cons entry rest ih =>
      obtain ⟨link, targets⟩ := entry
      have hedges (next : Draft) (edges : List Edge) :
          KeepsGroups next { next with edges := edges } :=
        ⟨rfl, rfl, [], (List.append_nil _).symm, by simp⟩
      exact ((draft.keepsGroups_mentions targets).trans (hedges _ _)).trans
        (ih _ targets)

theorem keepsGroups_addChain (draft : Draft) (chain : Chain) :
    KeepsGroups draft (draft.addChain chain) :=
  (draft.keepsGroups_mentions chain.head).trans
    (keepsGroups_addLinks _ chain.head chain.links)

/-! ### Reading a body -/

/-- Applies a statement that has been read, or remarks that there is none. -/
def enter (draft : Draft) (entry : Entry) : Draft :=
  match entry.statement with
  | some statement => draft.apply statement entry.fragment.span
  | none =>
    draft.report (.unrecognized (String.ofList entry.fragment.text)
      entry.fragment.span)

theorem read_eq_enter (draft : Draft) (fragment : Fragment) :
    draft.read fragment = draft.enter (.ofFragment fragment) := by
  unfold read enter Entry.ofFragment
  cases Grammar.statement? fragment.text fragment.span.start <;> rfl

/-- The draft behind the statements of a body. -/
def behind (direction : Direction) (body : List Entry) : Draft :=
  body.foldl enter { direction := direction }

@[simp] theorem behind_concat (direction : Direction) (body : List Entry)
    (entry : Entry) :
    behind direction (body ++ [entry]) =
      (behind direction body).enter entry :=
  List.foldl_concat _ _ _ _

theorem IsSound.enter {draft : Draft} (h : draft.IsSound) (entry : Entry) :
    (draft.enter entry).IsSound := by
  unfold Draft.enter
  split
  · exact h.apply _ _
  · exact h.report _

theorem isSound_behind (direction : Direction) (body : List Entry) :
    (behind direction body).IsSound := by
  induction body using List.reverseRecOn with
  | nil => exact isSound_initial direction
  | append_singleton body entry ih =>
      rw [behind_concat]
      exact ih.enter entry

/-- A group gets the id that it asks for, unless that is taken; the remark then
says which one it gets. -/
theorem exists_openGroup_eq (draft : Draft) (header : GroupHeader)
    (span : Span) :
    ∃ id notes, id ∉ draft.ids ∧
      (id = header.requestedId ∧ notes = [] ∨
        notes = [.renamed header.requestedId id span]) ∧
      draft.openGroup header span =
        { draft with
          groups := draft.groups ++
            [⟨⟨id, header.shownTitle, [], draft.stack.head?, none⟩, span⟩]
          stack := id :: draft.stack
          findings := draft.findings ++ notes } := by
  have hopen : draft.openGroup header span =
      let claim := draft.claimId header.requestedId span
      { claim.2 with
        groups := claim.2.groups ++ [⟨⟨claim.1, header.shownTitle, [],
          claim.2.stack.head?, none⟩, span⟩]
        stack := claim.1 :: claim.2.stack } := rfl
  have hfree := draft.claimId_not_mem header.requestedId span
  rw [hopen]
  cases htaken : draft.isTaken header.requestedId with
  | false =>
      rw [claimId_of_free span htaken] at hfree ⊢
      refine ⟨_, [], hfree, .inl ⟨rfl, rfl⟩, ?_⟩
      rw [List.append_nil]
  | true =>
      obtain ⟨number, -, hclaim⟩ := claimId_of_taken span htaken
      rw [hclaim] at hfree ⊢
      exact ⟨_, _, hfree, .inr rfl, rfl⟩

end Draft

namespace Body

/-- The statements, each with all that stand in front of it, behind the given
ones. -/
def contextsFrom (before : List Entry) : List Entry → List (List Entry × Entry)
  | [] => []
  | entry :: rest => (before, entry) :: contextsFrom (before ++ [entry]) rest

/-- The statements of the body, each with all that stand in front of it. -/
def contexts (body : List Entry) : List (List Entry × Entry) :=
  contextsFrom [] body

theorem contextsFrom_append (before first second : List Entry) :
    contextsFrom before (first ++ second) =
      contextsFrom before first ++ contextsFrom (before ++ first) second := by
  induction first generalizing before with
  | nil => simp [contextsFrom]
  | cons entry first ih => simp [contextsFrom, ih]

theorem contexts_append (body : List Entry) (entry : Entry)
    (rest : List Entry) :
    contexts (body ++ entry :: rest) =
      contexts body ++
        (body, entry) :: contextsFrom (body ++ [entry]) rest := by
  rw [contexts, contextsFrom_append]
  rfl

/-- The opening of a group, with the statements in front of it. -/
structure Opener where
  before : List Entry
  header : GroupHeader
  span : Span

def opener? (context : List Entry × Entry) : Option Opener :=
  context.2.header?.map fun header =>
    ⟨context.1, header, context.2.fragment.span⟩

/-- The openings of groups, in order. -/
def openers (body : List Entry) : List Opener :=
  (contexts body).filterMap opener?

theorem openers_append (body : List Entry) (entry : Entry) (rest : List Entry) :
    ∃ more, openers (body ++ entry :: rest) =
      openers body ++ ((opener? (body, entry)).toList ++ more) := by
  rw [openers, contexts_append, List.filterMap_append, List.filterMap_cons]
  cases opener? (body, entry) <;> exact ⟨_, rfl⟩

theorem openers_concat (body : List Entry) (entry : Entry) :
    openers (body ++ [entry]) =
      openers body ++ (opener? (body, entry)).toList := by
  rw [openers, contexts_append, List.filterMap_append, List.filterMap_cons]
  cases opener? (body, entry) <;> rfl

theorem length_openers (body : List Entry) :
    (openers body).length = openings body := by
  induction body using List.reverseRecOn with
  | nil => rfl
  | append_singleton body entry ih =>
      rw [openers_concat, List.length_append, ih, openings_append,
        openings_singleton, opener?, Entry.opens]
      cases entry.header? <;> rfl

end Body

namespace Diagram

/-- The statements of a text behind its first one. -/
def sourceBody (source : List Char) : List Fragment :=
  (Fragment.ofText source).tail

/-- The direction that the first statement of a text asks for. -/
def sourceDirection (source : List Char) : Direction :=
  ((statements source).head?.bind Grammar.headerDirection?).getD .topBottom

theorem parse_eq_assemble (source : List Char) :
    parse source = assemble (sourceDirection source) (sourceBody source) := by
  unfold parse sourceDirection sourceBody statements
  cases Fragment.ofText source <;> rfl

theorem assemble_eq_closeAll (direction : Direction) (body : List Fragment) :
    assemble direction body =
      let draft := (Draft.behind direction (body.map .ofFragment)).closeAll
      ⟨draft.diagram, draft.findings⟩ := by
  have hread : Draft.read = fun draft fragment =>
      draft.enter (.ofFragment fragment) := by
    funext draft fragment
    exact draft.read_eq_enter fragment
  rw [assemble, hread, Draft.behind, List.foldl_map]

end Diagram

end Flowchart
