import Flowchart.Proofs.FirstDefinitions
import Flowchart.Proofs.WrittenChains

/-!
# Remarks without places

What is remarked on a text depends on its statements only, apart from the places
that the remarks speak of.  Two drafts that differ in places alone do so after
each statement, wherever the statement stands, so that texts with the same
statements have the same diagram and the same diagnostics.
-/

namespace Flowchart

/-- The remark without its place. -/
def Finding.unplaced : Finding → Finding
  | .unrecognized text _ => .unrecognized text Span.nowhere
  | .unsupported keyword _ => .unsupported keyword Span.nowhere
  | .unmatchedEnd _ => .unmatchedEnd Span.nowhere
  | .unterminated group _ => .unterminated group Span.nowhere
  | .renamed requested given _ => .renamed requested given Span.nowhere
  | .redefined node _ => .redefined node Span.nowhere

/-- The diagnostic without its place. -/
def Diagnostic.unplaced (diagnostic : Diagnostic) : Diagnostic :=
  { diagnostic with span := none }

theorem Finding.diagnostics_unplaced {findings others : List Finding}
    (h : findings.map Finding.unplaced = others.map Finding.unplaced) :
    findings.map (Diagnostic.unplaced ∘ Finding.diagnostic) =
      others.map (Diagnostic.unplaced ∘ Finding.diagnostic) := by
  have hunplaced : Diagnostic.unplaced ∘ Finding.diagnostic =
      (Diagnostic.unplaced ∘ Finding.diagnostic) ∘ Finding.unplaced := by
    funext finding
    cases finding <;> rfl
  rw [hunplaced, ← List.map_map, h, List.map_map]

theorem Statement.effect?_congr {statement other : Statement}
    (h : statement.unplaced = other.unplaced) :
    statement.effect? = other.effect? := by
  have hunplaced (statement : Statement) :
      statement.unplaced.effect? = statement.effect? := by
    cases statement <;>
      simp [unplaced, effect?, Chain.unplaced, Function.comp_def]
  rw [← hunplaced, h, hunplaced]

namespace Grammar

/-- A statement reads the same wherever it stands. -/
theorem statement?_unplaced (text : List Char) (offset other : ℕ) :
    (statement? text offset).map Statement.unplaced =
      (statement? text other).map Statement.unplaced := by
  have hread (offset : ℕ) : (statement? text offset).map Statement.unplaced =
      ((openGroup? text).map .openGroup <|>
        (closeGroup? text).map (fun _ => .closeGroup) <|>
        (direction? text).map .direction <|>
        (whole? (chain? 0 text)).map .chain <|>
        (whole? (mentions? 0 text)).map .nodes <|>
        (unsupported? text).map .unsupported) := by
    rw [statement?]
    simp only [← chain?_unplaced (offset + Text.byteLength text),
      ← mentions?_unplaced (offset + Text.byteLength text), whole?_map]
    cases openGroup? text with
    | some => rfl
    | none =>
    cases closeGroup? text with
    | some => rfl
    | none =>
    cases direction? text with
    | some => rfl
    | none =>
    cases whole? (chain? (offset + Text.byteLength text) text) with
    | some => rfl
    | none =>
    cases whole? (mentions? (offset + Text.byteLength text) text) with
    | some => rfl
    | none => cases unsupported? text <;> rfl
  rw [hread, hread]

end Grammar

namespace Draft

/-- The drafts differ in places only. -/
structure Alike (draft other : Draft) : Prop where
  unplaced_eq : draft.unplaced = other.unplaced
  findings_eq : draft.findings.map Finding.unplaced =
    other.findings.map Finding.unplaced

namespace Alike

variable {draft other : Draft}

theorem report (h : Alike draft other) (finding finding' : Finding)
    (hfinding : finding.unplaced = finding'.unplaced) :
    Alike (draft.report finding) (other.report finding') := by
  refine ⟨h.unplaced_eq, ?_⟩
  simp [Draft.report, h.findings_eq, hfinding]

theorem findings_openGroup (h : Alike draft other) (header : GroupHeader)
    (span span' : Span) :
    (draft.openGroup header span).findings.map Finding.unplaced =
      (other.openGroup header span').findings.map Finding.unplaced := by
  have htaken (id : String) : draft.isTaken id = other.isTaken id := by
    rw [← isTaken_unplaced, h.unplaced_eq, isTaken_unplaced]
  have hfree (id : String) : draft.freeId? id = other.freeId? id := by
    rw [← freeId?_unplaced, h.unplaced_eq, freeId?_unplaced]
  simp only [Draft.openGroup, claimId, htaken, hfree]
  split
  · exact (h.report (.renamed _ _ span) (.renamed _ _ span') rfl).findings_eq
  · exact h.findings_eq

theorem findings_closeGroup (h : Alike draft other) (span span' : Span) :
    (draft.closeGroup span).findings.map Finding.unplaced =
      (other.closeGroup span').findings.map Finding.unplaced := by
  have hstack : draft.stack = other.stack := by
    rw [← stack_unplaced, h.unplaced_eq, stack_unplaced]
  rw [Draft.closeGroup, Draft.closeGroup, hstack]
  cases other.stack with
  | nil =>
      exact (h.report (.unmatchedEnd span) (.unmatchedEnd span') rfl).findings_eq
  | cons => exact h.findings_eq

theorem findings_setDirection (draft : Draft) (direction : Direction) :
    (draft.setDirection direction).findings = draft.findings := by
  unfold Draft.setDirection
  split <;> rfl

theorem mention (h : Alike draft other) {mention mention' : Mention}
    (hmention : mention.unplaced = mention'.unplaced) :
    Alike (draft.mention mention) (other.mention mention') := by
  refine ⟨by rw [unplaced_mention, h.unplaced_eq, hmention, ← unplaced_mention],
    ?_⟩
  obtain ⟨id, definition, span⟩ := mention
  obtain ⟨id', definition', span'⟩ := mention'
  obtain ⟨rfl, rfl, -⟩ := Mention.mk.inj hmention
  have hnode : draft.node? id = other.node? id := by
    rw [← node?_unplaced, h.unplaced_eq, node?_unplaced]
  have hgroup : draft.hasGroup id = other.hasGroup id := by
    rw [← hasGroup_unplaced, h.unplaced_eq, hasGroup_unplaced]
  rw [Draft.mention, Draft.mention]
  simp only [hnode, hgroup]
  cases other.node? id with
  | none =>
      simp only
      split
      · exact h.findings_eq
      · rw [HasNamed.findings_addNode, HasNamed.findings_addNode]
        exact h.findings_eq
  | some node =>
      simp only
      rw [HasNamed.findings_adopt, HasNamed.findings_adopt]
      cases definition with
      | none => exact h.findings_eq
      | some definition =>
          simp only [define]
          split
          · exact h.findings_eq
          · split
            · exact (h.report (.redefined node.id span)
                (.redefined node.id span') rfl).findings_eq
            · exact h.findings_eq

theorem mentions (h : Alike draft other) {mentions others : List Mention}
    (hmentions : mentions.map Mention.unplaced =
      others.map Mention.unplaced) :
    Alike (draft.mentions mentions) (other.mentions others) := by
  induction mentions generalizing draft other others with
  | nil =>
      obtain rfl := List.map_eq_nil_iff.mp hmentions.symm
      exact h
  | cons mention mentions ih =>
      obtain ⟨mention', others, rfl, hmention, hothers⟩ :=
        List.map_eq_cons_iff.mp hmentions.symm
      exact ih (h.mention hmention.symm) hothers.symm

theorem addLinks (h : Alike draft other) {sources others : List Mention}
    (hsources : sources.map Mention.unplaced = others.map Mention.unplaced)
    {links more : List (Link × List Mention)}
    (hlinks : links.map (Prod.map id (List.map Mention.unplaced)) =
      more.map (Prod.map id (List.map Mention.unplaced))) :
    Alike (draft.addLinks sources links) (other.addLinks others more) := by
  refine ⟨addLinks_congr h.unplaced_eq hsources hlinks, ?_⟩
  induction links generalizing draft other sources others more with
  | nil =>
      obtain rfl := List.map_eq_nil_iff.mp hlinks.symm
      exact h.findings_eq
  | cons entry links ih =>
      obtain ⟨⟨link, targets'⟩, more, rfl, hentry, hmore⟩ :=
        List.map_eq_cons_iff.mp hlinks.symm
      obtain ⟨link, targets⟩ := entry
      simp only [Prod.map_apply, id_eq, Prod.mk.injEq] at hentry
      obtain ⟨rfl, htargets⟩ := hentry
      have hmentions := h.mentions htargets.symm
      rw [Draft.addLinks, Draft.addLinks,
        edgesBetween_congr link hsources htargets.symm]
      exact ih ⟨pushEdges_congr hmentions.unplaced_eq _, hmentions.findings_eq⟩
        htargets.symm hmore.symm

theorem apply (h : Alike draft other) {statement statement' : Statement}
    (hstatement : statement.unplaced = statement'.unplaced)
    (span span' : Span) :
    Alike (draft.apply statement span) (other.apply statement' span') := by
  constructor
  · rw [unplaced_apply, h.unplaced_eq, Statement.effect?_congr hstatement,
      ← unplaced_apply]
  · cases statement <;> cases statement' <;>
      simp only [Statement.unplaced, reduceCtorEq, Statement.openGroup.injEq,
        Statement.direction.injEq, Statement.unsupported.injEq,
        Statement.chain.injEq, Statement.nodes.injEq] at hstatement
    case openGroup.openGroup header header' =>
      subst hstatement
      exact h.findings_openGroup header span span'
    case closeGroup.closeGroup => exact h.findings_closeGroup span span'
    case direction.direction direction direction' =>
      simp only [Draft.apply, findings_setDirection]
      exact h.findings_eq
    case unsupported.unsupported keyword keyword' =>
      subst hstatement
      exact (h.report (.unsupported keyword span) (.unsupported keyword span')
        rfl).findings_eq
    case chain.chain chain chain' =>
      obtain ⟨hhead, hlinks⟩ := Chain.mk.inj hstatement
      exact ((h.mentions hhead).addLinks hhead hlinks).findings_eq
    case nodes.nodes mentions mentions' =>
      exact (h.mentions hstatement).findings_eq

theorem read (h : Alike draft other) {fragment fragment' : Fragment}
    (htext : fragment.text = fragment'.text) :
    Alike (draft.read fragment) (other.read fragment') := by
  have hread := Grammar.statement?_unplaced fragment.text fragment.span.start
    fragment'.span.start
  rw [Draft.read, Draft.read, ← htext]
  cases hfirst : Grammar.statement? fragment.text fragment.span.start <;>
    cases hsecond : Grammar.statement? fragment.text fragment'.span.start <;>
    simp only [hfirst, hsecond, Option.map_none, Option.map_some, reduceCtorEq,
      Option.some.injEq] at hread
  · exact h.report _ _ rfl
  · exact h.apply hread _ _

theorem foldl_read (h : Alike draft other) {body more : List Fragment}
    (hbody : body.map Fragment.text = more.map Fragment.text) :
    Alike (body.foldl Draft.read draft) (more.foldl Draft.read other) := by
  induction body generalizing draft other more with
  | nil =>
      obtain rfl := List.map_eq_nil_iff.mp hbody.symm
      exact h
  | cons fragment body ih =>
      obtain ⟨fragment', more, rfl, hfragment, hmore⟩ :=
        List.map_eq_cons_iff.mp hbody.symm
      exact ih (h.read hfragment.symm) hmore.symm

/-- The groups that are open in the end are the same, and so is what is remarked
on them. -/
theorem findings_closeAll (h : Alike draft other) :
    draft.closeAll.findings.map Finding.unplaced =
      other.closeAll.findings.map Finding.unplaced := by
  have hmissing (draft : Draft) :
      (draft.stack.filterMap fun id =>
          (draft.groups.find? (·.id == id)).map fun group =>
            Finding.unterminated group.id group.span).map Finding.unplaced =
        draft.unplaced.stack.filterMap fun id =>
          (draft.unplaced.groups.find? (·.id == id)).map fun group =>
            Finding.unterminated group.id Span.nowhere := by
    rw [List.map_filterMap, stack_unplaced]
    congr 1
    funext id
    simp only [unplaced, List.find?_map, Option.map_map]
    rfl
  rw [closeAll, closeAll, List.map_append, List.map_append, hmissing, hmissing,
    h.findings_eq, h.unplaced_eq]

end Alike

end Draft

namespace Diagram

/-- The statements of a text settle what is read from it, apart from places. -/
theorem parse_congr {source other : List Char}
    (h : statements source = statements other) :
    (parse source).diagram = (parse other).diagram ∧
      (parse source).diagnostics.map Diagnostic.unplaced =
        (parse other).diagnostics.map Diagnostic.unplaced := by
  have hdirection : sourceDirection source = sourceDirection other := by
    rw [sourceDirection, sourceDirection, h]
  have hbody : (sourceBody source).map Fragment.text =
      (sourceBody other).map Fragment.text := by
    have htail := congrArg List.tail h
    rwa [statements, statements, ← List.map_tail, ← List.map_tail] at htail
  let draft : Draft := { direction := sourceDirection other }
  have halike := Draft.Alike.foldl_read (⟨rfl, rfl⟩ : draft.Alike draft) hbody
  have hdiagram : ∀ draft : Draft, draft.closeAll.diagram = draft.diagram :=
    fun _ => rfl
  rw [parse_eq_assemble, parse_eq_assemble, hdirection]
  constructor
  · simp only [assemble, hdiagram]
    exact Draft.diagram_eq_of_unplaced halike.unplaced_eq
  · have hfindings := halike.findings_closeAll
    simp only [assemble, Parsed.diagnostics, List.map_map]
    exact Finding.diagnostics_unplaced hfindings

end Diagram

end Flowchart
