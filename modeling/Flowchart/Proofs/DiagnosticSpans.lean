import Flowchart.Proofs.FirstDefinitions
import Flowchart.Proofs.MentionSpans
import Flowchart.Proofs.StatementSpans

/-!
# Where diagnostics point

Every diagnostic is caused by one statement of the body.  It marks that
statement, wherever in the text it stands; only where a node is redefined it
marks the node inside of the statement.
-/

namespace Flowchart

open Text

namespace Body

/-- The statement of the body, which stands behind the given ones, causes the
remark. -/
inductive Causes (direction : Direction) (groups : List Group)
    (body before : List Entry) (entry : Entry) : Finding → Prop
  | unrecognized : entry.statement = none →
      Causes direction groups body before entry
        (.unrecognized (String.ofList entry.fragment.text) entry.fragment.span)
  | unsupported {keyword : String} :
      entry.statement = some (.unsupported keyword) →
      Causes direction groups body before entry
        (.unsupported keyword entry.fragment.span)
  | unmatchedEnd : entry.statement = some .closeGroup → openAt before = [] →
      Causes direction groups body before entry
        (.unmatchedEnd entry.fragment.span)
  /-- The group that is opened here is still open behind the body. -/
  | unterminated {group : Group} : before.length ∈ openAt body →
      groups[openings before]? = some group →
      Causes direction groups body before entry
        (.unterminated group.id entry.fragment.span)
  /-- The id is taken when the group asks for it. -/
  | renamed {header : GroupHeader} {given : String} :
      entry.statement = some (.openGroup header) →
      header.requestedId ∈ (Draft.behind direction before).ids →
      Causes direction groups body before entry
        (.renamed header.requestedId given entry.fragment.span)
  /-- Another definition of the node comes first. -/
  | redefined {mention : Mention} {definition : Definition} :
      mention ∈ entry.mentions → mention.definition = some definition →
      mention.id ∉ groups.map Group.id →
      definition? (references body) mention.id ≠ some definition →
      Causes direction groups body before entry
        (.redefined mention.id mention.span)

theorem exists_of_mem_contexts {body before : List Entry} {entry : Entry}
    (h : (before, entry) ∈ contexts body) :
    ∃ rest, body = before ++ entry :: rest := by
  induction body using List.reverseRecOn with
  | nil => exact absurd h List.not_mem_nil
  | append_singleton body last ih =>
      rw [contexts_append, List.mem_append] at h
      rcases h with h | h
      · obtain ⟨rest, rfl⟩ := ih h
        exact ⟨rest ++ [last], by simp⟩
      · obtain ⟨rfl, rfl⟩ := Prod.mk.inj (List.mem_singleton.mp h)
        exact ⟨[], rfl⟩

variable {direction : Direction} {groups : List Group} {body before : List Entry}
  {entry : Entry} {finding : Finding}

theorem causes_of_remark? (h : remark? (before, entry) = some finding) :
    Causes direction groups body before entry finding := by
  unfold remark? at h
  simp only at h
  split at h
  next hnone =>
    obtain rfl := Option.some.inj h
    exact .unrecognized hnone
  next keyword hunsupported =>
    obtain rfl := Option.some.inj h
    exact .unsupported hunsupported
  next hclose =>
    rw [Option.ite_none_right_eq_some] at h
    obtain rfl := Option.some.inj h.2
    exact .unmatchedEnd hclose h.1
  next => exact absurd h (by simp)

theorem exists_causes_of_unterminated? {start : ℕ} (hstart : start ∈ openAt body)
    (h : unterminated? groups body start = some finding) :
    ∃ before entry rest, body = before ++ entry :: rest ∧
      Causes direction groups body before entry finding := by
  simp only [unterminated?, Option.bind_eq_bind, Option.bind_eq_some_iff] at h
  obtain ⟨group, hgroup, entry, hentry, hfinding⟩ := h
  obtain rfl := Option.some.inj hfinding
  obtain ⟨hlt, rfl⟩ := List.getElem?_eq_some_iff.mp hentry
  have hlength : (body.take start).length = start :=
    List.length_take_of_le hlt.le
  refine ⟨body.take start, body[start], body.drop (start + 1), ?_, ?_⟩
  · rw [← List.drop_eq_getElem_cons hlt, List.take_append_drop]
  · exact .unterminated (hlength.symm ▸ hstart) hgroup

theorem exists_causes_of_redefinition? {reference : Reference}
    (hreference : reference ∈ references body)
    (h : redefinition? (groups.map Group.id) (references body) reference =
      some finding) :
    ∃ before entry rest, body = before ++ entry :: rest ∧
      Causes direction groups body before entry finding := by
  obtain ⟨⟨before, entry⟩, hcontext, hreference⟩ :=
    List.mem_flatMap.mp hreference
  obtain ⟨mention, hmention, rfl⟩ := List.mem_map.mp hreference
  obtain ⟨rest, hbody⟩ := exists_of_mem_contexts hcontext
  simp only [redefinition?, Option.bind_eq_bind, Option.bind_eq_some_iff] at h
  obtain ⟨definition, hdefinition, h⟩ := h
  rw [Option.ite_none_right_eq_some] at h
  obtain rfl := Option.some.inj h.2
  exact ⟨before, entry, rest, hbody,
    .redefined hmention hdefinition h.1.1 h.1.2⟩

end Body

namespace Draft

/-! ### Groups that are renamed -/

/-- The remarks on groups that get another id than they ask for. -/
def renamings (draft : Draft) : List Finding :=
  draft.findings.filter fun finding => finding.code = .idCollision

theorem renamings_openGroup (draft : Draft) (header : GroupHeader)
    (span : Span) :
    ∃ notes, (draft.openGroup header span).renamings =
        draft.renamings ++ notes ∧
      ∀ note ∈ notes, header.requestedId ∈ draft.ids ∧
        ∃ given, note = .renamed header.requestedId given span := by
  have hfindings : (draft.openGroup header span).findings =
      (draft.claimId header.requestedId span).2.findings := rfl
  rw [renamings, hfindings]
  cases htaken : draft.isTaken header.requestedId with
  | false =>
      rw [claimId_of_free span htaken]
      exact ⟨[], (List.append_nil _).symm, by simp⟩
  | true =>
      obtain ⟨number, -, hclaim⟩ := claimId_of_taken span htaken
      rw [hclaim]
      refine ⟨_, List.filter_append _ _, ?_⟩
      intro note hnote
      obtain ⟨hnote, -⟩ := List.mem_filter.mp hnote
      rw [List.mem_singleton] at hnote
      exact ⟨isTaken_iff.mp htaken, _, hnote⟩

theorem KeepsGroups.renamings_eq {draft next : Draft}
    (h : KeepsGroups draft next) : next.renamings = draft.renamings := by
  obtain ⟨notes, hnotes, hcode⟩ := h.findings_eq
  have hnone : notes.filter (fun finding => finding.code = .idCollision) =
      [] := by
    rw [List.filter_eq_nil_iff]
    intro note hnote
    simp [hcode note hnote]
  rw [renamings, hnotes, List.filter_append, hnone, List.append_nil]
  rfl

theorem renamings_report {finding : Finding} (draft : Draft)
    (h : finding.code ≠ .idCollision) :
    (draft.report finding).renamings = draft.renamings := by
  rw [renamings, report, List.filter_append, List.filter_singleton]
  simp [h, renamings]

theorem renamings_enter (draft : Draft) (entry : Entry) :
    ∃ notes, (draft.enter entry).renamings = draft.renamings ++ notes ∧
      ∀ note ∈ notes, ∃ header given,
        entry.statement = some (.openGroup header) ∧
        header.requestedId ∈ draft.ids ∧
        note = .renamed header.requestedId given entry.fragment.span := by
  have hkept {next : Draft} (h : next.renamings = draft.renamings) :
      ∃ notes, next.renamings = draft.renamings ++ notes ∧
        ∀ note ∈ notes, ∃ header given,
          entry.statement = some (.openGroup header) ∧
          header.requestedId ∈ draft.ids ∧
          note = .renamed header.requestedId given entry.fragment.span :=
    ⟨[], by rw [h, List.append_nil], by simp⟩
  unfold enter
  split
  next statement hstatement =>
    cases statement with
    | openGroup header =>
        obtain ⟨notes, hnotes, hnote⟩ :=
          draft.renamings_openGroup header entry.fragment.span
        refine ⟨notes, hnotes, fun note hmem => ?_⟩
        obtain ⟨htaken, given, heq⟩ := hnote note hmem
        exact ⟨header, given, hstatement, htaken, heq⟩
    | closeGroup =>
        apply hkept
        unfold apply closeGroup
        cases draft.stack with
        | nil => exact draft.renamings_report (by simp [Finding.code])
        | cons innermost outer => rfl
    | direction direction =>
        exact hkept (draft.keepsGroups_setDirection direction).renamings_eq
    | unsupported keyword =>
        exact hkept (draft.renamings_report (by simp [Finding.code]))
    | chain chain => exact hkept (draft.keepsGroups_addChain chain).renamings_eq
    | nodes mentions =>
        exact hkept (draft.keepsGroups_mentions mentions).renamings_eq
  next => exact hkept (draft.renamings_report (by simp [Finding.code]))

theorem exists_of_mem_renamings {direction : Direction} {body : List Entry}
    {finding : Finding} (h : finding ∈ (behind direction body).renamings) :
    ∃ before entry rest header given, body = before ++ entry :: rest ∧
      entry.statement = some (.openGroup header) ∧
      header.requestedId ∈ (behind direction before).ids ∧
      finding = .renamed header.requestedId given entry.fragment.span := by
  induction body using List.reverseRecOn with
  | nil => exact absurd h List.not_mem_nil
  | append_singleton body entry ih =>
      obtain ⟨notes, hnotes, hnote⟩ :=
        (behind direction body).renamings_enter entry
      rw [behind_concat, hnotes, List.mem_append] at h
      rcases h with hold | hnew
      · obtain ⟨before, cause, rest, header, given, rfl, hcause⟩ := ih hold
        exact ⟨before, cause, rest ++ [entry], header, given, by simp, hcause⟩
      · obtain ⟨header, given, hcause⟩ := hnote finding hnew
        exact ⟨body, entry, [], header, given, rfl, hcause⟩

/-- Closing the groups that are open renames none of them. -/
theorem renamings_closeAll (draft : Draft) :
    draft.closeAll.renamings = draft.renamings := by
  have hmissing : (draft.stack.filterMap fun id =>
      (draft.groups.find? (·.id == id)).map fun group =>
        Finding.unterminated group.id group.span).filter
          (fun finding => finding.code = .idCollision) = [] := by
    rw [List.filter_eq_nil_iff]
    intro finding hfinding
    obtain ⟨id, -, hid⟩ := List.mem_filterMap.mp hfinding
    obtain ⟨group, -, rfl⟩ := Option.map_eq_some_iff.mp hid
    simp [Finding.code]
  rw [renamings, closeAll, List.filter_append, hmissing, List.append_nil]
  rfl

/-! ### All remarks -/

/-- Every remark has a statement that causes it. -/
theorem exists_causes (direction : Direction) (body : List Entry) :
    let draft := (behind direction body).closeAll
    ∀ finding ∈ draft.findings, ∃ before entry rest,
      body = before ++ entry :: rest ∧
      Body.Causes direction draft.diagram.groups body before entry finding := by
  intro draft finding hfinding
  have haccounts : Parsed.AccountsFor ⟨draft.diagram, draft.findings⟩ body :=
    accountsFor_closeAll_behind direction body
  have hnamed : Parsed.NamesNodes ⟨draft.diagram, draft.findings⟩ body :=
    namesNodes_closeAll_behind direction body
  have honStatement (h : finding.isOnStatement = true) :
      ∃ before entry rest, body = before ++ entry :: rest ∧
        Body.Causes direction draft.diagram.groups body before entry
          finding := by
    have hmem : finding ∈ draft.findings.filter Finding.isOnStatement :=
      List.mem_filter.mpr ⟨hfinding, h⟩
    rw [haccounts.onStatements] at hmem
    obtain ⟨⟨before, entry⟩, hcontext, hremark⟩ := List.mem_filterMap.mp hmem
    obtain ⟨rest, hbody⟩ := Body.exists_of_mem_contexts hcontext
    exact ⟨before, entry, rest, hbody, Body.causes_of_remark? hremark⟩
  cases finding with
  | unrecognized text span => exact honStatement rfl
  | unsupported keyword span => exact honStatement rfl
  | unmatchedEnd span => exact honStatement rfl
  | unterminated group span =>
      obtain ⟨early, late, hsplit, hearly, hlate⟩ := haccounts.unterminated
      have hmem := hfinding
      rw [show draft.findings = early ++ late from hsplit,
        List.mem_append] at hmem
      rcases hmem with hmem | hmem
      · exact absurd rfl (hearly _ hmem)
      · have hlast := List.mem_map_of_mem (f := some) hmem
        rw [hlate] at hlast
        obtain ⟨start, hstart, hgroup⟩ := List.mem_map.mp hlast
        exact Body.exists_causes_of_unterminated? hstart hgroup
  | renamed requested given span =>
      have hmem : Finding.renamed requested given span ∈ draft.renamings :=
        List.mem_filter.mpr ⟨hfinding, rfl⟩
      rw [renamings_closeAll] at hmem
      obtain ⟨before, entry, rest, header, given, hbody, hentry, htaken, heq⟩ :=
        exists_of_mem_renamings hmem
      rw [heq]
      exact ⟨before, entry, rest, hbody, .renamed hentry htaken⟩
  | redefined node span =>
      have hmem : Finding.redefined node span ∈ redefinitions draft.findings :=
        List.mem_filter.mpr ⟨hfinding, rfl⟩
      rw [hnamed.redefinitions_eq] at hmem
      obtain ⟨reference, hreference, hredefinition⟩ := List.mem_filterMap.mp hmem
      exact Body.exists_causes_of_redefinition? hreference hredefinition

end Draft

/-! ### Places in the source -/

theorem Fragment.marks_of_mem_ofText {source : List Char} {fragment : Fragment}
    (h : fragment ∈ ofText source) :
    fragment.span.Marks source fragment.text := by
  have hcuts := cuts_ofLines (arePlaced_placeLines 0 (rawLines (lines source)))
  obtain ⟨before, after, hsource, hspan⟩ := hcuts.exists_split h
  rw [textOf_placeLines, flatten_rawLines] at hsource
  refine ⟨before, after, ?_, ?_⟩
  · rw [← hsource]
    exact (List.intercalate_splitOn '\n').symm
  · rw [hspan, Nat.zero_add]

/-- The diagnostic marks the given part of the source, which is the statement
or, where a node is redefined, the node inside of the statement. -/
structure Diagnostic.MarksIn (diagnostic : Diagnostic) (source : List Char)
    (entry : Entry) (span : Span) (part : List Char) : Prop where
  span_eq : diagnostic.span = some span
  bounds : span.start ≤ span.stop ∧ span.stop ≤ byteLength source
  marks : span.Marks source part
  message_eq : diagnostic.code = some .unrecognized →
    diagnostic.message = "unrecognized statement `" ++ String.ofList part ++ "`"
  statement_eq : diagnostic.code ≠ some .redefinition →
    span = entry.fragment.span ∧ part = entry.fragment.text
  node_eq : diagnostic.code = some .redefinition →
    entry.fragment.span.start ≤ span.start ∧
      span.stop ≤ entry.fragment.span.stop ∧
      ∃ mention ∈ entry.mentions, mention.span = span ∧
        mention.id.toList <+: part ∧ diagnostic.message = "node `" ++ mention.id ++
          "` redefined; the first definition is kept"

namespace Body

variable {direction : Direction} {groups : List Group}
  {body before : List Entry} {entry : Entry} {finding : Finding}

theorem Causes.marksIn (h : Causes direction groups body before entry finding)
    {source : List Char} {fragment : Fragment}
    (hfragment : fragment ∈ Fragment.ofText source)
    (hentry : entry = .ofFragment fragment) :
    ∃ span part, finding.diagnostic.MarksIn source entry span part := by
  have hmarks := Fragment.marks_of_mem_ofText hfragment
  subst hentry
  have hstatement (hspan : finding.span = fragment.span)
      (hcode : finding.code ≠ .redefinition)
      (hmessage : finding.code = .unrecognized → finding.message =
        "unrecognized statement `" ++ String.ofList fragment.text ++ "`") :
      ∃ span part, finding.diagnostic.MarksIn source (.ofFragment fragment)
        span part := by
    refine ⟨fragment.span, fragment.text, congrArg some hspan,
      ⟨fragment.span.start_le_stop, hmarks.stop_le⟩, hmarks, ?_, ?_, ?_⟩
    · exact fun h => hmessage (Option.some.inj h)
    · exact fun _ => ⟨rfl, rfl⟩
    · exact fun h => absurd (Option.some.inj h) hcode
  cases h with
  | unrecognized => exact hstatement rfl (by simp [Finding.code]) fun _ => rfl
  | unsupported | unmatchedEnd | unterminated | renamed =>
      exact hstatement rfl (by simp [Finding.code]) (by simp [Finding.code])
  | @redefined mention definition hmention =>
      obtain ⟨before, inside, after, htext, hspan, hid⟩ :=
        (Entry.isReadIn_of_mem_mentions hmention).exists_split
      rw [htext] at hmarks
      obtain ⟨hinside, hstop⟩ := hmarks.inside
      rw [← hspan] at hinside
      refine ⟨mention.span, inside, rfl,
        ⟨mention.span.start_le_stop, hinside.stop_le⟩, hinside, ?_, ?_, ?_⟩
      · exact fun h => absurd h (by simp [Finding.diagnostic, Finding.code])
      · exact fun h => absurd rfl h
      · rw [hspan]
        exact fun _ => ⟨Nat.le_add_right _ _, hstop, mention, hmention, hspan,
          hid, rfl⟩

end Body

namespace Diagram

/-- The diagnostic has a cause in the text, and marks it. -/
def MarksCause (source : List Char) (diagnostic : Diagnostic) : Prop :=
  ∃ finding before entry rest span part,
    diagnostic = Finding.diagnostic finding ∧
    (sourceBody source).map Entry.ofFragment = before ++ entry :: rest ∧
    Body.Causes (sourceDirection source) (parse source).diagram.groups
      ((sourceBody source).map .ofFragment) before entry finding ∧
    diagnostic.MarksIn source entry span part

/-- Every diagnostic points at the right text: at the statement that causes it,
or at the node that the statement redefines. -/
theorem parse_marksCause (source : List Char) :
    ∀ diagnostic ∈ (parse source).diagnostics,
      MarksCause source diagnostic := by
  intro diagnostic hdiagnostic
  obtain ⟨finding, hfinding, rfl⟩ := List.mem_map.mp hdiagnostic
  rw [parse_eq_assemble, assemble_eq_closeAll] at hfinding
  obtain ⟨before, entry, rest, hbody, hcauses⟩ :=
    Draft.exists_causes _ _ finding hfinding
  have hmem : entry ∈ (sourceBody source).map Entry.ofFragment := by
    rw [hbody]
    exact List.mem_append_right before List.mem_cons_self
  obtain ⟨fragment, hfragment, hentry⟩ := List.mem_map.mp hmem
  obtain ⟨span, part, hmarks⟩ :=
    hcauses.marksIn (List.mem_of_mem_tail hfragment) hentry.symm
  refine ⟨finding, before, entry, rest, span, part, rfl, hbody, ?_, hmarks⟩
  rw [parse_eq_assemble, assemble_eq_closeAll]
  exact hcauses

/-- A node that is redefined behind others, in a statement of two lines. -/
theorem parse_marksCause_redefined_node :
    let source := "graph LR\nö[1]; A[\"é\n\"] & ö[2]".toList
    let diagnostic : Diagnostic :=
      ⟨.note, "node `ö` redefined; the first definition is kept",
        some .redefinition, some (Span.ofLength 27 5), none⟩
    diagnostic ∈ (parse source).diagnostics ∧ MarksCause source diagnostic := by
  intro source diagnostic
  have hmem : diagnostic ∈ (parse source).diagnostics := by decide +kernel
  exact ⟨hmem, parse_marksCause source diagnostic hmem⟩

end Diagram

end Flowchart
