import Flowchart.Assembly

/-!
# What a statement means

The diagram in the end depends on what its statements do, and neither on where
they stand in the text nor on what is remarked about them.  Erasing places and
remarks commutes with every step of the assembly, so that two texts whose
statements have the same effects, one by one, have the same diagram.
-/

namespace Flowchart

/-- The place that stands for all places. -/
def Span.nowhere : Span :=
  Span.ofLength 0 0

def Mention.unplaced (mention : Mention) : Mention :=
  { mention with span := Span.nowhere }

def Chain.unplaced (chain : Chain) : Chain :=
  ⟨chain.head.map Mention.unplaced,
    chain.links.map (Prod.map id (List.map Mention.unplaced))⟩

/-- The header with the id that the group asks for and the title that it is
given. -/
def GroupHeader.resolved (header : GroupHeader) : GroupHeader :=
  let title := (header.title <|> header.id).getD ""
  ⟨some (header.id.getD (String.ofList (Label.slug title.toList))), some title⟩

/-- What the statement does to the diagram, if it does anything. -/
def Statement.effect? : Statement → Option Statement
  | .openGroup header => some (.openGroup header.resolved)
  | .closeGroup => some .closeGroup
  | .direction value => some (.direction value)
  | .unsupported _ => none
  | .chain value => some (.chain value.unplaced)
  | .nodes mentions => some (.nodes (mentions.map Mention.unplaced))

@[simp] theorem Mention.unplaced_unplaced (mention : Mention) :
    mention.unplaced.unplaced = mention.unplaced :=
  rfl

namespace Grammar

open Text

/-! ### Reading without places -/

/-- What the text of a statement does, read as if it ended at the start of the
source, where all places are the same. -/
def effect? (text : List Char) : Option Statement :=
  (openGroup? text).map (fun header => .openGroup header.resolved) <|>
    (closeGroup? text).map (fun _ => .closeGroup) <|>
    (direction? text).map .direction <|>
    (whole? (chain? 0 text)).map .chain <|>
    (whole? (mentions? 0 text)).map .nodes

theorem mention?_unplaced (stop : Nat) (text : List Char) :
    (mention? stop text).map (Prod.map Mention.unplaced id) =
      mention? 0 text := by
  simp only [mention?, Option.map_map]
  congr 1
  funext parts
  simp [Mention.unplaced, Span.nowhere, Span.ofBounds, Span.ofLength]

theorem nextMention?_unplaced (stop : Nat) (text : List Char) :
    (nextMention? stop text).map (Prod.map Mention.unplaced id) =
      nextMention? 0 text := by
  simp only [nextMention?, Option.map_bind, Function.comp_def,
    mention?_unplaced]

theorem moreMentions_unplaced (stop : Nat) (text : List Char) :
    Prod.map (List.map Mention.unplaced) id (moreMentions stop text) =
      moreMentions 0 text := by
  induction text using moreMentions.induct stop with
  | case1 text h =>
      rw [moreMentions, moreMentions, ← nextMention?_unplaced stop, h]
      rfl
  | case2 text mention rest h hlt others after hmore ih =>
      rw [moreMentions, moreMentions, ← nextMention?_unplaced stop, h]
      rw [hmore] at ih
      simp [hlt, hmore, ← ih]
  | case3 text mention rest h hlt =>
      rw [moreMentions, moreMentions, ← nextMention?_unplaced stop, h]
      simp [hlt]

theorem mentions?_unplaced (stop : Nat) (text : List Char) :
    (mentions? stop text).map (Prod.map (List.map Mention.unplaced) id) =
      mentions? 0 text := by
  simp only [mentions?, Option.map_map, ← mention?_unplaced stop]
  congr 1
  funext parts
  simp [← moreMentions_unplaced stop]

theorem nextLink?_unplaced (stop : Nat) (text : List Char) :
    (nextLink? stop text).map
        (Prod.map (Prod.map id (List.map Mention.unplaced)) id) =
      nextLink? 0 text := by
  simp only [nextLink?, Option.map_bind, Function.comp_def, Option.map_map,
    ← mentions?_unplaced stop]
  rfl

theorem moreLinks_unplaced (stop : Nat) (text : List Char) :
    Prod.map (List.map (Prod.map id (List.map Mention.unplaced))) id
        (moreLinks stop text) =
      moreLinks 0 text := by
  induction text using moreLinks.induct stop with
  | case1 text h =>
      rw [moreLinks, moreLinks, ← nextLink?_unplaced stop, h]
      rfl
  | case2 text link rest h hlt others after hmore ih =>
      rw [moreLinks, moreLinks, ← nextLink?_unplaced stop, h]
      rw [hmore] at ih
      simp [hlt, hmore, ← ih]
  | case3 text link rest h hlt =>
      rw [moreLinks, moreLinks, ← nextLink?_unplaced stop, h]
      simp [hlt]

theorem chain?_unplaced (stop : Nat) (text : List Char) :
    (chain? stop text).map (Prod.map Chain.unplaced id) = chain? 0 text := by
  simp only [chain?, Option.map_bind, ← mentions?_unplaced stop,
    Option.bind_map]
  congr 1
  funext parts
  simp only [Function.comp_def, Prod.map, id, ← moreLinks_unplaced stop]
  split <;> simp_all [Chain.unplaced]

theorem whole?_map {α β : Type} (f : α → β) (result : Option (α × List Char)) :
    whole? (result.map (Prod.map f id)) = (whole? result).map f := by
  rcases result with _ | ⟨value, rest⟩
  · rfl
  · simp only [whole?, Option.map_some, Option.bind_some, Prod.map]
    split <;> simp_all

theorem effect?_statement? (text : List Char) (offset : Nat) :
    (statement? text offset).bind Statement.effect? = effect? text := by
  rw [statement?, effect?]
  simp only [← chain?_unplaced (offset + byteLength text),
    ← mentions?_unplaced (offset + byteLength text), whole?_map]
  cases openGroup? text with
  | some => rfl
  | none =>
  cases closeGroup? text with
  | some => rfl
  | none =>
  cases direction? text with
  | some => rfl
  | none =>
  cases whole? (chain? (offset + byteLength text) text) with
  | some => rfl
  | none =>
  cases whole? (mentions? (offset + byteLength text) text) with
  | some => rfl
  | none => cases unsupported? text <;> rfl

end Grammar

/-! ### Assembling without places -/

namespace Draft

/-- The draft without places and remarks. -/
def unplaced (draft : Draft) : Draft :=
  { draft with
    groups := draft.groups.map fun group => { group with span := Span.nowhere }
    findings := [] }

variable (draft : Draft)

@[simp] theorem unplaced_unplaced : draft.unplaced.unplaced = draft.unplaced := by
  simp [unplaced]

@[simp] theorem unplaced_report (finding : Finding) :
    (draft.report finding).unplaced = draft.unplaced :=
  rfl

@[simp] theorem stack_unplaced : draft.unplaced.stack = draft.stack :=
  rfl

@[simp] theorem node?_unplaced (id : String) :
    draft.unplaced.node? id = draft.node? id :=
  rfl

@[simp] theorem hasGroup_unplaced (id : String) :
    draft.unplaced.hasGroup id = draft.hasGroup id := by
  simp [hasGroup, unplaced, List.any_map, Function.comp_def]

@[simp] theorem isTaken_unplaced (id : String) :
    draft.unplaced.isTaken id = draft.isTaken id := by
  simp [isTaken]
  rfl

theorem freeId?_unplaced (requested : String) :
    draft.unplaced.freeId? requested = draft.freeId? requested := by
  simp only [freeId?, isTaken_unplaced]
  simp [unplaced]

theorem unplaced_updateNode (id : String) (change : Draft.Node → Draft.Node) :
    (draft.updateNode id change).unplaced =
      draft.unplaced.updateNode id change :=
  rfl

theorem unplaced_updateGroup (id : String) {change : Draft.Group → Draft.Group}
    (h : ∀ group, { change group with span := Span.nowhere } =
      change { group with span := Span.nowhere }) :
    (draft.updateGroup id change).unplaced =
      draft.unplaced.updateGroup id change := by
  simp only [updateGroup, unplaced, List.map_map, Draft.mk.injEq, true_and,
    and_true]
  apply List.map_congr_left
  intro group _
  by_cases hid : group.id = id <;> simp [hid, h]

theorem unplaced_openGroup (header : GroupHeader) (span other : Span) :
    (draft.openGroup header span).unplaced =
      (draft.unplaced.openGroup header other).unplaced := by
  simp only [openGroup, claimId, isTaken_unplaced, freeId?_unplaced]
  split <;> simp [unplaced, report]

theorem unplaced_closeGroup (span : Span) :
    (draft.closeGroup span).unplaced =
      (draft.unplaced.closeGroup Span.nowhere).unplaced := by
  rw [closeGroup, closeGroup, stack_unplaced]
  cases draft.stack with
  | nil => exact draft.unplaced_unplaced.symm
  | cons => simp [unplaced]

theorem unplaced_setDirection (direction : Direction) :
    (draft.setDirection direction).unplaced =
      draft.unplaced.setDirection direction := by
  rw [setDirection, setDirection, stack_unplaced]
  cases draft.stack with
  | nil => rfl
  | cons group outer => exact draft.unplaced_updateGroup group fun _ => rfl

theorem unplaced_addMember (group node : String) :
    (draft.addMember group node).unplaced =
      draft.unplaced.addMember group node :=
  draft.unplaced_updateGroup group fun _ => rfl

theorem unplaced_define (node : Draft.Node) (definition : Definition)
    (span other : Span) :
    (draft.define node definition span).unplaced =
      (draft.unplaced.define node definition other).unplaced := by
  rw [define, define]
  split
  · rw [unplaced_updateNode, unplaced_updateNode, unplaced_unplaced]
  · split <;> simp

theorem unplaced_adopt (node : Draft.Node) :
    (draft.adopt node).unplaced = draft.unplaced.adopt node := by
  rw [adopt, adopt, stack_unplaced]
  split
  · rw [unplaced_addMember, unplaced_updateNode]
  · rfl

theorem unplaced_addNode (mention : Mention) :
    (draft.addNode mention).unplaced =
      draft.unplaced.addNode mention.unplaced := by
  rw [addNode, addNode, stack_unplaced]
  cases draft.stack with
  | nil => rfl
  | cons group outer =>
      simp only [← unplaced_addMember]
      rfl

theorem unplaced_mention (mention : Mention) :
    (draft.mention mention).unplaced =
      (draft.unplaced.mention mention.unplaced).unplaced := by
  rw [Draft.mention, Draft.mention, Mention.unplaced, node?_unplaced]
  simp only [hasGroup_unplaced]
  cases draft.node? mention.id with
  | none =>
      simp only
      split
      · exact draft.unplaced_unplaced.symm
      · rw [unplaced_addNode, unplaced_addNode, unplaced_unplaced]
        rfl
  | some node =>
      cases mention.definition with
      | none => simp [unplaced_adopt]
      | some definition =>
          simp only
          rw [unplaced_adopt, unplaced_adopt,
            unplaced_define draft node definition mention.span Span.nowhere]

/-! ### Drafts that differ in places and remarks only -/

variable {draft} {other : Draft}

theorem mentions_congr (h : draft.unplaced = other.unplaced)
    {mentions others : List Mention}
    (hmentions : mentions.map Mention.unplaced = others.map Mention.unplaced) :
    (draft.mentions mentions).unplaced = (other.mentions others).unplaced := by
  induction mentions generalizing draft other others with
  | nil =>
      obtain rfl := List.map_eq_nil_iff.mp hmentions.symm
      exact h
  | cons mention mentions ih =>
      obtain ⟨mention', others, rfl, hmention, hothers⟩ :=
        List.map_eq_cons_iff.mp hmentions.symm
      apply ih _ hothers.symm
      rw [unplaced_mention, h, ← hmention, ← unplaced_mention]

theorem edgesBetween_unplaced (link : Link) (sources targets : List Mention) :
    edgesBetween link (sources.map Mention.unplaced)
        (targets.map Mention.unplaced) =
      edgesBetween link sources targets := by
  simp [edgesBetween, List.flatMap_map, Function.comp_def, Mention.unplaced]

theorem edgesBetween_congr (link : Link) {sources others : List Mention}
    (hsources : sources.map Mention.unplaced = others.map Mention.unplaced)
    {targets more : List Mention}
    (htargets : targets.map Mention.unplaced = more.map Mention.unplaced) :
    edgesBetween link sources targets = edgesBetween link others more := by
  rw [← edgesBetween_unplaced, hsources, htargets, edgesBetween_unplaced]

theorem pushEdges_congr (h : draft.unplaced = other.unplaced)
    (edges : List Edge) :
    ({ draft with edges := draft.edges ++ edges } : Draft).unplaced =
      ({ other with edges := other.edges ++ edges } : Draft).unplaced := by
  change ({ draft.unplaced with edges := draft.unplaced.edges ++ edges } : Draft) =
    { other.unplaced with edges := other.unplaced.edges ++ edges }
  rw [h]

theorem addLinks_congr (h : draft.unplaced = other.unplaced)
    {sources others : List Mention}
    (hsources : sources.map Mention.unplaced = others.map Mention.unplaced)
    {links more : List (Link × List Mention)}
    (hlinks : links.map (Prod.map id (List.map Mention.unplaced)) =
      more.map (Prod.map id (List.map Mention.unplaced))) :
    (draft.addLinks sources links).unplaced =
      (other.addLinks others more).unplaced := by
  induction links generalizing draft other sources others more with
  | nil =>
      obtain rfl := List.map_eq_nil_iff.mp hlinks.symm
      exact h
  | cons entry links ih =>
      obtain ⟨⟨link, targets'⟩, more, rfl, hentry, hmore⟩ :=
        List.map_eq_cons_iff.mp hlinks.symm
      obtain ⟨link, targets⟩ := entry
      simp only [Prod.map_apply, id_eq, Prod.mk.injEq] at hentry
      obtain ⟨rfl, htargets⟩ := hentry
      have hmentions := mentions_congr h htargets.symm
      rw [addLinks, addLinks,
        edgesBetween_congr link hsources htargets.symm]
      exact ih (pushEdges_congr hmentions _) htargets.symm hmore.symm

theorem addChain_congr (h : draft.unplaced = other.unplaced)
    {chain more : Chain} (hchain : chain.unplaced = more.unplaced) :
    (draft.addChain chain).unplaced = (other.addChain more).unplaced := by
  obtain ⟨hhead, hlinks⟩ := Chain.mk.inj hchain
  exact addLinks_congr (mentions_congr h hhead) hhead hlinks

/-- What a statement does to a draft is its effect. -/
theorem unplaced_apply (draft : Draft) (statement : Statement) (span : Span) :
    (draft.apply statement span).unplaced =
      (statement.effect?.elim draft.unplaced
        (draft.unplaced.apply · Span.nowhere)).unplaced := by
  have hdraft := draft.unplaced_unplaced
  cases statement with
  | openGroup header =>
      exact draft.unplaced_openGroup header.resolved span Span.nowhere
  | closeGroup => exact draft.unplaced_closeGroup span
  | direction value =>
      exact (draft.unplaced_setDirection value).trans
        ((hdraft ▸ draft.unplaced.unplaced_setDirection value).symm)
  | unsupported keyword => exact hdraft.symm
  | chain chain =>
      exact addChain_congr hdraft.symm (by simp [Chain.unplaced, Function.comp_def])
  | nodes mentions => exact mentions_congr hdraft.symm (by simp)

theorem unplaced_read (draft : Draft) (fragment : Fragment) :
    (draft.read fragment).unplaced =
      ((Grammar.effect? fragment.text).elim draft.unplaced
        (draft.unplaced.apply · Span.nowhere)).unplaced := by
  rw [read, ← Grammar.effect?_statement? fragment.text fragment.span.start]
  cases Grammar.statement? fragment.text fragment.span.start with
  | none => exact draft.unplaced_unplaced.symm
  | some statement => exact draft.unplaced_apply statement fragment.span

theorem foldl_read_congr (h : draft.unplaced = other.unplaced)
    {body more : List Fragment}
    (hbody : body.map (fun fragment => Grammar.effect? fragment.text) =
      more.map fun fragment => Grammar.effect? fragment.text) :
    (body.foldl read draft).unplaced = (more.foldl read other).unplaced := by
  induction body generalizing draft other more with
  | nil =>
      obtain rfl := List.map_eq_nil_iff.mp hbody.symm
      exact h
  | cons fragment body ih =>
      obtain ⟨fragment', more, rfl, hfragment, hmore⟩ :=
        List.map_eq_cons_iff.mp hbody.symm
      simp only at hfragment
      rw [List.foldl_cons, List.foldl_cons]
      -- Only the effects count, so that the drafts agree after each statement.
      refine ih ?_ hmore.symm
      rw [unplaced_read, h, ← hfragment, ← unplaced_read]

theorem diagram_eq_of_unplaced (h : draft.unplaced = other.unplaced) :
    draft.diagram = other.diagram := by
  have hunplaced : ∀ draft : Draft, draft.diagram = draft.unplaced.diagram := by
    intro draft
    simp [diagram, unplaced, Function.comp_def]
  rw [hunplaced, h, ← hunplaced]

end Draft

namespace Diagram

/-- The texts of the statements of a text, in order. -/
def statements (source : List Char) : List (List Char) :=
  (Fragment.ofText source).map Fragment.text

theorem diagram_assemble_congr (direction : Direction)
    {body more : List Fragment}
    (h : body.map (fun fragment => Grammar.effect? fragment.text) =
      more.map fun fragment => Grammar.effect? fragment.text) :
    (assemble direction body).diagram = (assemble direction more).diagram := by
  let draft : Draft := { direction := direction }
  have hunplaced := Draft.foldl_read_congr (rfl : draft.unplaced = _) h
  have hsame := Draft.diagram_eq_of_unplaced hunplaced
  exact hsame

/-- A diagram is settled by the direction that the first statement asks for and
the effects of the others. -/
theorem diagram_parse_congr {source other : List Char}
    (hheader : (statements source).head?.bind Grammar.headerDirection? =
      (statements other).head?.bind Grammar.headerDirection?)
    (hbody : (statements source).tail.map Grammar.effect? =
      (statements other).tail.map Grammar.effect?) :
    (parse source).diagram = (parse other).diagram := by
  have hparse : ∀ source, (parse source).diagram =
      (assemble (((statements source).head?.bind
        Grammar.headerDirection?).getD .topBottom)
          (Fragment.ofText source).tail).diagram := by
    intro source
    rw [parse, statements]
    cases Fragment.ofText source <;> rfl
  rw [hparse, hparse, hheader]
  apply diagram_assemble_congr
  simpa [statements, Function.comp_def, List.map_tail] using hbody

end Diagram

end Flowchart
