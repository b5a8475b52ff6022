import Flowchart.Proofs.BodyStatements

/-!
# Every statement is accounted for

Reading a diagram never fails, so whatever is not understood has to leave a
remark and nothing else.  The statements of a body that open a group are the
groups of the diagram, in the same order, and each group lies in the one that is
open around it.  The statements that are rejected, that have no effect or that
end a group where none is open are the remarks of these kinds, and the groups
that are never closed are the last ones.
-/

namespace Flowchart

open Body

/-! ### What a body gives rise to -/

namespace Body

/-- What is remarked on a statement by itself: that it is rejected, that it has
no effect, or that it ends a group where none is open. -/
def remark? (context : List Entry × Entry) : Option Finding :=
  let ⟨before, entry⟩ := context
  match entry.statement with
  | none =>
    some (.unrecognized (String.ofList entry.fragment.text) entry.fragment.span)
  | some (.unsupported keyword) =>
    some (.unsupported keyword entry.fragment.span)
  | some .closeGroup =>
    if openAt before = [] then some (.unmatchedEnd entry.fragment.span)
    else none
  | _ => none

/-- What is remarked on a group that was opened at the given place and is still
open in the end. -/
def unterminated? (groups : List Group) (body : List Entry) (start : ℕ) :
    Option Finding := do
  let group ← groups[openings (body.take start)]?
  let entry ← body[start]?
  some (.unterminated group.id entry.fragment.span)

/-- The group is the one that the statement opens: it has the title and the id
that are asked for there, or a remark says which other id it has got, and it
lies in the innermost group that is open there. -/
structure Opener.Makes (opener : Opener) (ids : List String)
    (findings : List Finding) (group : Group) : Prop where
  title_eq : group.title = opener.header.shownTitle
  id_eq : group.id = opener.header.requestedId ∨
    .renamed opener.header.requestedId group.id opener.span ∈ findings
  parent_eq : group.parent.map some =
    (innermost? opener.before).map fun number => ids[number]?

theorem Opener.Makes.mono {opener : Opener} {ids : List String}
    {findings : List Finding} {group : Group}
    (h : opener.Makes ids findings group) (more : List String)
    {notes : List Finding} (hnotes : findings ⊆ notes) :
    opener.Makes (ids ++ more) notes group := by
  refine ⟨h.title_eq, h.id_eq.imp_right fun hmem => hnotes hmem, ?_⟩
  have hparent := h.parent_eq
  cases hinner : innermost? opener.before with
  | none => simpa [hinner] using hparent
  | some number =>
      rw [hinner, Option.map_some, Option.map_eq_some_iff] at hparent
      obtain ⟨outer, houter, hid⟩ := hparent
      have hlt := (List.getElem?_eq_some_iff.mp hid.symm).1
      rw [houter, Option.map_some, Option.map_some,
        List.getElem?_append_left hlt, ← hid]

/-! ### Where open groups were opened -/

theorem openings_take_concat {body : List Entry} {start : ℕ}
    (h : start ∈ openAt body) (entry : Entry) :
    openings ((body ++ [entry]).take start) = openings (body.take start) := by
  rw [List.take_append_of_le_length (lt_of_mem_openAt h).le]

/-- Where a group is open that was opened at the given place, there is a
statement that opens it, and the group has its number among the openings. -/
theorem exists_opener_of_mem_openAt {body : List Entry} {start : ℕ}
    (h : start ∈ openAt body) :
    ∃ entry opener, body[start]? = some entry ∧
      (openers body)[openings (body.take start)]? = some opener ∧
      opener.span = entry.fragment.span := by
  have hlt := lt_of_mem_openAt h
  have hopen : StaysOpen (body.drop start) := by
    simpa using (List.mem_filter.mp h).2
  have hsplit : body.drop start = body[start] :: body.drop (start + 1) :=
    List.drop_eq_getElem_cons hlt
  have hopens : body[start].opens = true := by
    rw [← staysOpen_singleton]
    refine ⟨by simp, fun inner hinner hne => hopen.2 inner ?_ hne⟩
    rw [List.mem_inits] at hinner ⊢
    rw [hsplit]
    exact hinner.trans ⟨_, rfl⟩
  obtain ⟨header, hheader⟩ := Option.isSome_iff_exists.mp hopens
  obtain ⟨more, hmore⟩ := openers_append (body.take start) body[start]
    (body.drop (start + 1))
  rw [← hsplit, List.take_append_drop] at hmore
  refine ⟨body[start], ⟨body.take start, header, body[start].fragment.span⟩,
    List.getElem?_eq_getElem hlt, ?_, rfl⟩
  rw [hmore, ← length_openers, List.getElem?_append_right le_rfl]
  simp [opener?, hheader]

theorem openings_take_lt {body : List Entry} {start : ℕ}
    (h : start ∈ openAt body) : openings (body.take start) < openings body := by
  obtain ⟨-, opener, -, hopener, -⟩ := exists_opener_of_mem_openAt h
  rw [← length_openers body]
  exact (List.getElem?_eq_some_iff.mp hopener).1

end Body

/-- The remark is about a statement by itself, and not about a group or a
node. -/
def Finding.isOnStatement (finding : Finding) : Bool :=
  match finding.code with
  | .unrecognized | .unsupported | .unmatchedEnd => true
  | _ => false

/-- All that the statements of a body give rise to, apart from its nodes and
edges. -/
structure Parsed.AccountsFor (parsed : Parsed) (body : List Entry) : Prop where
  onStatements : parsed.findings.filter Finding.isOnStatement =
    (contexts body).filterMap remark?
  groups : List.Forall₂
    (fun opener group =>
      opener.Makes (parsed.diagram.groups.map Group.id) parsed.findings group)
    (openers body) parsed.diagram.groups
  unterminated : ∃ early late, parsed.findings = early ++ late ∧
    (∀ finding ∈ early, finding.code ≠ .unterminated) ∧
    late.map some =
      (openAt body).map (unterminated? parsed.diagram.groups body)

namespace Draft

/-! ### One statement -/

/-- The groups stay as they are, and what is remarked is what the statement
gives rise to, next to definitions of nodes. -/
structure Passes (draft next : Draft) (entry : Entry) : Prop where
  opens_eq : entry.opens = false
  closes_eq : entry.closes = false
  stack_eq : next.stack = draft.stack
  outlines_eq : next.groups.map Group.outline = draft.groups.map Group.outline
  findings_eq : ∃ notes, next.findings = draft.findings ++ notes ∧
    (∀ before, notes.filter Finding.isOnStatement =
      (remark? (before, entry)).toList) ∧
    ∀ note ∈ notes, note.code ≠ .unterminated

theorem passes_report (draft : Draft) {entry : Entry} {finding : Finding}
    (hopens : entry.opens = false) (hcloses : entry.closes = false)
    (hremark : ∀ before, remark? (before, entry) = some finding)
    (hcode : finding.isOnStatement = true) :
    Passes draft (draft.report finding) entry := by
  refine ⟨hopens, hcloses, rfl, rfl, [finding], rfl, ?_, ?_⟩
  · intro before
    rw [hremark, List.filter_singleton, hcode]
    rfl
  · intro note hnote
    rw [List.mem_singleton.mp hnote]
    intro hnone
    rw [Finding.isOnStatement, hnone] at hcode
    cases hcode

theorem KeepsGroups.passes {draft next : Draft} (h : KeepsGroups draft next)
    {entry : Entry} (hopens : entry.opens = false)
    (hcloses : entry.closes = false)
    (hremark : ∀ before, remark? (before, entry) = none) :
    Passes draft next entry := by
  obtain ⟨notes, hnotes, hcode⟩ := h.findings_eq
  refine ⟨hopens, hcloses, h.stack_eq, h.outlines_eq, notes, hnotes, ?_, ?_⟩
  · intro before
    rw [hremark, Option.toList_none, List.filter_eq_nil_iff]
    intro note hnote
    simp [Finding.isOnStatement, hcode note hnote]
  · intro note hnote
    simp [hcode note hnote]

/-- A statement opens a group, ends one or keeps the groups. -/
theorem enter_cases (draft : Draft) (entry : Entry) :
    (∃ header, entry.statement = some (.openGroup header) ∧
      draft.enter entry = draft.openGroup header entry.fragment.span) ∨
    (entry.statement = some .closeGroup ∧
      draft.enter entry = draft.closeGroup entry.fragment.span) ∨
    Passes draft (draft.enter entry) entry := by
  obtain ⟨statement, fragment⟩ := entry
  cases statement with
  | none => exact .inr (.inr (draft.passes_report rfl rfl (fun _ => rfl) rfl))
  | some statement =>
      cases statement with
      | openGroup header => exact .inl ⟨header, rfl, rfl⟩
      | closeGroup => exact .inr (.inl ⟨rfl, rfl⟩)
      | unsupported keyword =>
          exact .inr (.inr (draft.passes_report rfl rfl (fun _ => rfl) rfl))
      | direction direction =>
          exact .inr (.inr
            ((draft.keepsGroups_setDirection direction).passes rfl rfl
              fun _ => rfl))
      | chain chain =>
          exact .inr (.inr
            ((draft.keepsGroups_addChain chain).passes rfl rfl fun _ => rfl))
      | nodes mentions =>
          exact .inr (.inr
            ((draft.keepsGroups_mentions mentions).passes rfl rfl fun _ => rfl))

/-! ### Groups -/

/-- The groups of the draft are those that the body opens, and they are open
where the body leaves them open. -/
structure HasOpened (draft : Draft) (body : List Entry) : Prop where
  groups : List.Forall₂
    (fun opener group =>
      opener.Makes draft.groupIds draft.findings group.toGroup ∧
        group.span = opener.span)
    (openers body) (draft.groups.map Group.outline)
  stack : draft.stack.map some =
    (openAt body).map fun start => draft.groupIds[openings (body.take start)]?

variable {draft : Draft} {body : List Entry}

theorem hasOpened_initial (direction : Direction) :
    HasOpened { direction := direction } [] :=
  ⟨.nil, rfl⟩

namespace HasOpened

theorem length_groupIds (h : draft.HasOpened body) :
    draft.groupIds.length = openings body := by
  have hlength := h.groups.length_eq
  rw [length_openers, List.length_map] at hlength
  rw [hlength, groupIds, List.length_map]

theorem stack_eq_nil_iff (h : draft.HasOpened body) :
    draft.stack = [] ↔ openAt body = [] := by
  rw [← List.map_eq_nil_iff, h.stack, List.map_eq_nil_iff]

theorem stack_concat (h : draft.HasOpened body) (entry : Entry) :
    draft.stack.map some = (openAt body).map fun start =>
      draft.groupIds[openings ((body ++ [entry]).take start)]? := by
  rw [h.stack]
  apply List.map_congr_left
  intro start hstart
  rw [openings_take_concat hstart]

/-- The group around a statement that comes next. -/
theorem head?_stack (h : draft.HasOpened body) :
    draft.stack.head?.map some =
      (innermost? body).map fun number => draft.groupIds[number]? := by
  rw [← List.head?_map, h.stack, List.head?_map, innermost?, Option.map_map]
  rfl

theorem concat_keeping (h : draft.HasOpened body) {entry : Entry}
    (hopens : entry.opens = false) {next : Draft}
    (houtlines : next.groups.map Group.outline = draft.groups.map Group.outline)
    (hfindings : draft.findings ⊆ next.findings)
    (hstack : next.stack.map some =
      (openAt (body ++ [entry])).map fun start =>
        draft.groupIds[openings ((body ++ [entry]).take start)]?) :
    next.HasOpened (body ++ [entry]) := by
  have hids := groupIds_of_outlines houtlines
  have hopener : opener? (body, entry) = none := by
    simpa [opener?, Entry.opens] using hopens
  refine ⟨?_, by rw [hids]; exact hstack⟩
  rw [openers_concat, hopener, Option.toList_none, List.append_nil, houtlines,
    hids]
  refine h.groups.imp fun opener group hmade => ⟨?_, hmade.2⟩
  simpa using hmade.1.mono [] hfindings

theorem concat_of_passes (h : draft.HasOpened body) {entry : Entry}
    {next : Draft} (hpasses : Passes draft next entry) :
    next.HasOpened (body ++ [entry]) := by
  obtain ⟨notes, hnotes, -⟩ := hpasses.findings_eq
  refine h.concat_keeping hpasses.opens_eq hpasses.outlines_eq
    (hnotes ▸ List.subset_append_left _ _) ?_
  rw [hpasses.stack_eq, openAt_concat_of_not_closes body hpasses.closes_eq,
    hpasses.opens_eq]
  exact h.stack_concat entry

theorem concat_closeGroup (h : draft.HasOpened body) {entry : Entry}
    (hentry : entry.statement = some .closeGroup) (span : Span) :
    (draft.closeGroup span).HasOpened (body ++ [entry]) := by
  have hcloses : entry.closes = true := by simp [Entry.closes, hentry]
  have htail : (draft.closeGroup span).stack = draft.stack.tail ∧
      (draft.closeGroup span).groups = draft.groups ∧
      draft.findings ⊆ (draft.closeGroup span).findings := by
    unfold closeGroup
    cases hstack : draft.stack with
    | nil => exact ⟨by simp [report, hstack], rfl, List.subset_append_left _ _⟩
    | cons innermost outer => exact ⟨rfl, rfl, List.Subset.refl _⟩
  obtain ⟨hstack, hgroups, hfindings⟩ := htail
  refine h.concat_keeping (Entry.opens_eq_false_of_closes hcloses)
    (by rw [hgroups]) hfindings ?_
  rw [hstack, List.map_tail, h.stack_concat entry,
    openAt_concat_of_closes body hcloses, List.map_tail]

theorem concat_openGroup (h : draft.HasOpened body) {entry : Entry}
    {header : GroupHeader}
    (hentry : entry.statement = some (.openGroup header)) :
    (draft.openGroup header entry.fragment.span).HasOpened
      (body ++ [entry]) := by
  obtain ⟨id, notes, -, hid, hopen⟩ :=
    draft.exists_openGroup_eq header entry.fragment.span
  have hheader : entry.header? = some header := by
    simp [Entry.header?, hentry]
  have hopens : entry.opens = true := by simp [Entry.opens, hheader]
  have hcloses : entry.closes = false := by simp [Entry.closes, hentry]
  have hids : (draft.openGroup header entry.fragment.span).groupIds =
      draft.groupIds ++ [id] := by
    simp [hopen, groupIds]
  rw [hopen] at hids ⊢
  have hmade : Opener.Makes ⟨body, header, entry.fragment.span⟩ draft.groupIds
      (draft.findings ++ notes)
      ⟨id, header.shownTitle, [], draft.stack.head?, none⟩ :=
    ⟨rfl, hid.imp And.left fun hnotes => by simp [hnotes], h.head?_stack⟩
  constructor
  · rw [openers_concat, hids]
    simp only [opener?, hheader, Option.map_some, Option.toList_some,
      List.map_append]
    refine List.rel_append ?_
      (.cons ⟨hmade.mono [id] (List.Subset.refl _), rfl⟩ .nil)
    refine h.groups.imp fun opener group hmade => ⟨?_, hmade.2⟩
    exact hmade.1.mono [id] (List.subset_append_left _ _)
  · rw [hids, openAt_concat_of_not_closes body hcloses, hopens]
    simp only [if_true, List.singleton_append, List.map_cons, List.take_left]
    rw [← h.length_groupIds, List.getElem?_concat_length, h.stack]
    congr 1
    apply List.map_congr_left
    intro start hstart
    have hlt := openings_take_lt hstart
    rw [← h.length_groupIds] at hlt
    rw [openings_take_concat hstart, List.getElem?_append_left hlt]

theorem enter (h : draft.HasOpened body) (entry : Entry) :
    (draft.enter entry).HasOpened (body ++ [entry]) := by
  obtain ⟨header, hentry, heq⟩ | ⟨hentry, heq⟩ | hpasses :=
    draft.enter_cases entry
  · rw [heq]
    exact h.concat_openGroup hentry
  · rw [heq]
    exact h.concat_closeGroup hentry entry.fragment.span
  · exact h.concat_of_passes hpasses

end HasOpened

/-! ### Remarks -/

/-- The remarks on statements are those that the body gives rise to, and no
group has been given up yet. -/
structure HasRemarked (draft : Draft) (body : List Entry) : Prop where
  onStatements : draft.findings.filter Finding.isOnStatement =
    (contexts body).filterMap remark?
  code_ne : ∀ finding ∈ draft.findings, finding.code ≠ .unterminated

theorem hasRemarked_initial (direction : Direction) :
    HasRemarked { direction := direction } [] :=
  ⟨rfl, by simp⟩

theorem HasRemarked.concat (h : draft.HasRemarked body) {entry : Entry}
    {next : Draft} {notes : List Finding}
    (hnotes : next.findings = draft.findings ++ notes)
    (hremark : notes.filter Finding.isOnStatement =
      (remark? (body, entry)).toList)
    (hcode : ∀ note ∈ notes, note.code ≠ .unterminated) :
    next.HasRemarked (body ++ [entry]) := by
  constructor
  · rw [hnotes, List.filter_append, h.onStatements, hremark, contexts_append,
      List.filterMap_append, List.filterMap_cons]
    cases remark? (body, entry) <;> rfl
  · intro finding hfinding
    rw [hnotes] at hfinding
    exact (List.mem_append.mp hfinding).elim (h.code_ne finding) (hcode finding)

theorem HasRemarked.enter (h : draft.HasRemarked body)
    (hopened : draft.HasOpened body) (entry : Entry) :
    (draft.enter entry).HasRemarked (body ++ [entry]) := by
  obtain ⟨header, hentry, heq⟩ | ⟨hentry, heq⟩ | hpasses :=
    draft.enter_cases entry
  · obtain ⟨id, notes, -, hid, hopen⟩ :=
      draft.exists_openGroup_eq header entry.fragment.span
    rw [heq, hopen]
    refine h.concat rfl ?_ ?_
    · simp only [remark?, hentry, Option.toList_none]
      rcases hid with ⟨-, rfl⟩ | rfl <;> rfl
    · rcases hid with ⟨-, rfl⟩ | rfl <;> simp [Finding.code]
  · have hnone := hopened.stack_eq_nil_iff
    rw [heq, closeGroup]
    cases hstack : draft.stack with
    | nil =>
        have hnotes :
            (draft.report (.unmatchedEnd entry.fragment.span)).findings =
              draft.findings ++ [.unmatchedEnd entry.fragment.span] := rfl
        refine h.concat hnotes ?_ ?_
        · simp only [remark?, hentry, hnone.mp hstack, if_true]
          rfl
        · simp [Finding.code]
    | cons innermost outer =>
        have hopen : openAt body ≠ [] := by simp [← hnone, hstack]
        refine h.concat (List.append_nil _).symm ?_ (by simp)
        simp [remark?, hentry, hopen]
  · obtain ⟨notes, hnotes, hremark, hcode⟩ := hpasses.findings_eq
    exact h.concat hnotes (hremark body) hcode

theorem hasOpened_hasRemarked_behind (direction : Direction)
    (body : List Entry) :
    (behind direction body).HasOpened body ∧
      (behind direction body).HasRemarked body := by
  induction body using List.reverseRecOn with
  | nil => exact ⟨hasOpened_initial direction, hasRemarked_initial direction⟩
  | append_singleton body entry ih =>
      rw [behind_concat]
      exact ⟨ih.1.enter entry, ih.2.enter ih.1 entry⟩

/-! ### Groups that are never closed -/

theorem find?_groups (hnodup : draft.groupIds.Nodup) {group : Draft.Group}
    (hgroup : group ∈ draft.groups) :
    draft.groups.find? (·.id == group.id) = some group := by
  obtain ⟨before, after, hsplit⟩ := List.append_of_mem hgroup
  rw [groupIds, hsplit, List.map_append, List.map_cons, List.nodup_middle,
    List.nodup_cons] at hnodup
  rw [List.find?_eq_some_iff_append]
  refine ⟨by simp, before, after, hsplit, ?_⟩
  intro other hother
  have hne : other.id ≠ group.id := by
    intro hid
    apply hnodup.1
    rw [← hid]
    exact List.mem_append_left _ (List.mem_map_of_mem hother)
  simpa using hne

/-- Where ids are distinct, the open group is found again, and it stands where
it was opened. -/
theorem HasOpened.exists_unterminated (h : draft.HasOpened body)
    (hnodup : draft.groupIds.Nodup) {start : ℕ} (hstart : start ∈ openAt body)
    {id : String}
    (hid : draft.groupIds[openings (body.take start)]? = some id) :
    ∃ finding, ((draft.groups.find? (·.id == id)).map fun group =>
        Finding.unterminated group.id group.span) = some finding ∧
      unterminated? draft.diagram.groups body start = some finding := by
  obtain ⟨entry, opener, hentry, hopener, hspan⟩ :=
    exists_opener_of_mem_openAt hstart
  rw [groupIds, List.getElem?_map, Option.map_eq_some_iff] at hid
  obtain ⟨group, hgroup, rfl⟩ := hid
  have houtline : (draft.groups.map Group.outline)[
      openings (body.take start)]? = some group.outline := by
    rw [List.getElem?_map, hgroup]
    rfl
  obtain ⟨hlt, hopener⟩ := List.getElem?_eq_some_iff.mp hopener
  obtain ⟨hlt', houtline⟩ := List.getElem?_eq_some_iff.mp houtline
  have hmade := (h.groups.get hlt hlt').2
  rw [List.get_eq_getElem, List.get_eq_getElem, hopener, houtline,
    hspan] at hmade
  refine ⟨.unterminated group.id group.span, ?_, ?_⟩
  · rw [find?_groups hnodup (List.mem_of_getElem? hgroup)]
    rfl
  · have hspan : group.span = entry.fragment.span := hmade
    simp [unterminated?, diagram, hgroup, hentry, hspan]

private theorem map_some_filterMap {α β γ : Type} {place : β → Option α}
    {look : α → Option γ} {want : β → Option γ} {values : List α}
    {places : List β} (h : values.map some = places.map place)
    (hfound : ∀ start ∈ places, ∀ value, place start = some value →
      ∃ found, look value = some found ∧ want start = some found) :
    (values.filterMap look).map some = places.map want := by
  induction places generalizing values with
  | nil =>
      obtain rfl : values = [] := by simpa using h
      rfl
  | cons start places ih =>
      obtain ⟨value, values, rfl, hvalue, hvalues⟩ := List.map_eq_cons_iff.mp h
      obtain ⟨found, hlook, hwant⟩ :=
        hfound start List.mem_cons_self value hvalue.symm
      have hrest := ih hvalues fun other hother =>
        hfound other (List.mem_cons_of_mem _ hother)
      rw [List.filterMap_cons_some hlook, List.map_cons, List.map_cons, hrest,
        hwant]

/-- What closing the draft remarks on. -/
theorem HasOpened.exists_closeAll_findings (h : draft.HasOpened body)
    (hnodup : draft.groupIds.Nodup) :
    ∃ late, draft.closeAll.findings = draft.findings ++ late ∧
      late.map some =
        (openAt body).map (unterminated? draft.diagram.groups body) :=
  ⟨_, rfl, map_some_filterMap h.stack fun _ hstart _ hid =>
    h.exists_unterminated hnodup hstart hid⟩

theorem isOnStatement_of_unterminated? {groups : List Flowchart.Group}
    {start : ℕ} {finding : Finding}
    (h : unterminated? groups body start = some finding) :
    finding.isOnStatement = false := by
  simp only [unterminated?, Option.bind_eq_bind, Option.bind_eq_some_iff] at h
  obtain ⟨group, -, entry, -, hfinding⟩ := h
  rw [← Option.some.inj hfinding]
  rfl

/-- Whatever its statements are, a body is accounted for. -/
theorem accountsFor_closeAll_behind (direction : Direction)
    (body : List Entry) :
    let draft := (behind direction body).closeAll
    Parsed.AccountsFor ⟨draft.diagram, draft.findings⟩ body := by
  intro closed
  obtain ⟨hopened, hremarked⟩ := hasOpened_hasRemarked_behind direction body
  have hnodup := (isSound_behind direction body).ids_nodup
  obtain ⟨late, hlate, hunterminated⟩ :=
    hopened.exists_closeAll_findings (List.nodup_append.mp hnodup).1
  constructor
  · have hnone : late.filter Finding.isOnStatement = [] := by
      rw [List.filter_eq_nil_iff]
      intro finding hfinding
      have hmem := List.mem_map_of_mem (f := some) hfinding
      rw [hunterminated] at hmem
      obtain ⟨start, -, hstart⟩ := List.mem_map.mp hmem
      simp [isOnStatement_of_unterminated? hstart]
    rw [hlate, List.filter_append, hremarked.onStatements, hnone,
      List.append_nil]
  · have hids : closed.diagram.groups.map Flowchart.Group.id =
        (behind direction body).groupIds := by
      simp [closed, diagram, groupIds, Draft.closeAll, Function.comp_def]
    rw [hids, hlate]
    have hgroups := hopened.groups
    rw [List.forall₂_map_right_iff] at hgroups
    apply List.forall₂_map_right_iff.mpr
    refine hgroups.imp fun opener group hmade => ?_
    have hmore := hmade.1.mono [] (List.subset_append_left _ late)
    rw [List.append_nil] at hmore
    exact ⟨hmore.title_eq, hmore.id_eq, hmore.parent_eq⟩
  · exact ⟨_, late, hlate, hremarked.code_ne, hunterminated⟩

end Draft

/-- The statement does nothing to the diagram: it is rejected, or it has no
effect. -/
def Entry.isIdle (entry : Entry) : Bool :=
  match entry.statement with
  | none | some (.unsupported _) => true
  | _ => false

namespace Draft

theorem unplaced_read_of_isIdle (draft : Draft) {fragment : Fragment}
    (h : (Entry.ofFragment fragment).isIdle = true) :
    (draft.read fragment).unplaced = draft.unplaced := by
  rw [read_eq_enter, enter]
  revert h
  rw [Entry.isIdle]
  split
  next hnone => intro _; rw [hnone]; rfl
  next keyword hunsupported => intro _; rw [hunsupported]; rfl
  next => intro h; cases h

/-- Statements that do nothing may as well be left out. -/
theorem unplaced_foldl_read_filter {draft other : Draft}
    (h : draft.unplaced = other.unplaced) (body : List Fragment) :
    ((body.filter fun fragment =>
        !(Entry.ofFragment fragment).isIdle).foldl read draft).unplaced =
      (body.foldl read other).unplaced := by
  induction body generalizing draft other with
  | nil => exact h
  | cons fragment body ih =>
      cases hidle : (Entry.ofFragment fragment).isIdle with
      | true =>
          rw [List.filter_cons_of_neg (by simp [hidle]), List.foldl_cons]
          exact ih (h.trans (other.unplaced_read_of_isIdle hidle).symm)
      | false =>
          rw [List.filter_cons_of_pos (by simp [hidle]), List.foldl_cons,
            List.foldl_cons]
          apply ih
          rw [unplaced_read, h, ← unplaced_read]

end Draft

namespace Diagram

theorem diagram_assemble_filter (direction : Direction) (body : List Fragment) :
    (assemble direction (body.filter fun fragment =>
        !(Entry.ofFragment fragment).isIdle)).diagram =
      (assemble direction body).diagram := by
  let draft : Draft := { direction := direction }
  have hunplaced :=
    Draft.unplaced_foldl_read_filter (rfl : draft.unplaced = _) body
  have hsame := Draft.diagram_eq_of_unplaced hunplaced
  exact hsame

/-- Every statement of a text is accounted for, and those that are rejected or
have no effect leave no trace in the diagram. -/
theorem parse_accountsFor (source : List Char) :
    (parse source).AccountsFor ((sourceBody source).map .ofFragment) ∧
      (parse source).diagram =
        (assemble (sourceDirection source)
          ((sourceBody source).filter fun fragment =>
            !(Entry.ofFragment fragment).isIdle)).diagram := by
  rw [parse_eq_assemble, diagram_assemble_filter]
  refine ⟨?_, rfl⟩
  rw [assemble_eq_closeAll]
  exact Draft.accountsFor_closeAll_behind _ _

/-- An `end` without a group, a closed group and an open one, a statement
without effect and a rejected one. -/
example :
    let source := "graph TD\nend\nsubgraph a\nend\nsubgraph b\nstyle a x\n?"
    (parse source.toList).findings.map Finding.code =
      [.unmatchedEnd, .unsupported, .unrecognized, .unterminated] := by
  decide +kernel

end Diagram

end Flowchart
