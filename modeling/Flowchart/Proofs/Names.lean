import Flowchart.Proofs.DiagnosticSpans
import Flowchart.Proofs.WrittenChains

/-!
# Ids are names

A statement refers to a node or to a group by its id, so the grammar has to be
able to read every id that a diagram has.  It has read the ids of the nodes, and
those of most groups; the others are made, from a title or by putting a number
behind an id that is taken.
-/

namespace Flowchart

open Text

/-! ### Slugs -/

namespace Label

/-- One or more alphanumeric characters. -/
def IsAlphanumericRun (run : List Char) : Prop :=
  run ≠ [] ∧ ∀ c ∈ run, isAlphanumeric c = true

/-- Runs of alphanumeric characters with single underscores between them. -/
inductive IsSlug : List Char → Prop where
  | run {run : List Char} (hrun : IsAlphanumericRun run) : IsSlug run
  | join {run rest : List Char} (hrun : IsAlphanumericRun run)
      (hrest : IsSlug rest) : IsSlug (run ++ '_' :: rest)

theorem isAlphanumeric_underscore : isAlphanumeric '_' = false := by
  decide

theorem isAlphanumericRun_of_mem {run title : List Char}
    (h : run ∈ alphanumericRuns title) : IsAlphanumericRun run := by
  obtain ⟨hsplit, hne⟩ := List.mem_filter.mp h
  refine ⟨by simpa using hne, ?_⟩
  clear h hne
  induction title generalizing run with
  | nil =>
      obtain rfl : run = [] := by simpa [List.splitOnP_nil] using hsplit
      exact List.forall_mem_nil _
  | cons c title ih =>
      obtain ⟨first, below, htitle⟩ :=
        List.exists_cons_of_ne_nil
          (List.splitOnP_ne_nil (!isAlphanumeric ·) title)
      rw [htitle] at ih
      rw [List.splitOnP_cons_eq_if_modifyHead, htitle] at hsplit
      split at hsplit
      next =>
        rcases List.mem_cons.mp hsplit with rfl | hmem
        · exact List.forall_mem_nil _
        · exact ih hmem
      next hc =>
        rcases List.mem_cons.mp hsplit with rfl | hmem
        · rw [List.forall_mem_cons]
          exact ⟨by simpa using hc, ih List.mem_cons_self⟩
        · exact ih (List.mem_cons_of_mem first hmem)

theorem alphanumericRuns_run {run : List Char} (h : IsAlphanumericRun run) :
    alphanumericRuns run = [run] := by
  rw [alphanumericRuns, List.splitOnP_eq_singleton fun c hc => by simp [h.2 c hc]]
  simp [h.1]

theorem alphanumericRuns_join {run : List Char} (h : IsAlphanumericRun run)
    (rest : List Char) :
    alphanumericRuns (run ++ '_' :: rest) = run :: alphanumericRuns rest := by
  rw [alphanumericRuns, List.splitOnP_append_cons run rest
    (by simp [isAlphanumeric_underscore]), List.filter_append]
  rw [← alphanumericRuns, ← alphanumericRuns, alphanumericRuns_run h]
  rfl

theorem isSlug_intercalate {first : List Char} {runs : List (List Char)}
    (h : ∀ run ∈ first :: runs, IsAlphanumericRun run) :
    IsSlug (['_'].intercalate (first :: runs)) := by
  induction runs generalizing first with
  | nil =>
      rw [List.intercalate_singleton]
      exact .run (h first List.mem_cons_self)
  | cons next runs ih =>
      rw [List.forall_mem_cons] at h
      rw [List.intercalate_cons_cons, List.append_assoc, List.singleton_append]
      exact .join h.1 (ih h.2)

theorem isSlug_slug (title : List Char) : IsSlug (slug title) := by
  unfold slug
  split
  next => exact .run ⟨by decide, List.all_eq_true.mp (by decide)⟩
  next runs hne =>
    cases hruns : alphanumericRuns title with
    | nil => exact absurd hruns hne
    | cons first runs =>
        apply isSlug_intercalate
        rw [← hruns]
        exact fun run => isAlphanumericRun_of_mem

theorem slug_eq_of_cons {title first : List Char} {runs : List (List Char)}
    (h : alphanumericRuns title = first :: runs) :
    slug title = ['_'].intercalate (first :: runs) := by
  rw [slug, h]

theorem IsSlug.slug_eq {text : List Char} (h : IsSlug text) : slug text = text := by
  have hruns : ∃ first runs, alphanumericRuns text = first :: runs ∧
      ['_'].intercalate (first :: runs) = text := by
    induction h with
    | @run run hrun =>
        exact ⟨run, [], alphanumericRuns_run hrun, List.intercalate_singleton⟩
    | @join run rest hrun hrest ih =>
        obtain ⟨first, runs, hfirst, hrestEq⟩ := ih
        refine ⟨run, first :: runs, ?_, ?_⟩
        · rw [alphanumericRuns_join hrun, hfirst]
        · rw [List.intercalate_cons_cons, hrestEq, List.append_assoc,
            List.singleton_append]
  obtain ⟨first, runs, hfirst, htext⟩ := hruns
  rw [slug_eq_of_cons hfirst, htext]

theorem IsSlug.ne_nil {text : List Char} (h : IsSlug text) : text ≠ [] := by
  cases h with
  | run hrun => exact hrun.1
  | join => simp

/-- Slugs are just the titles that are their own id. -/
theorem slug_eq_self_iff {text : List Char} : slug text = text ↔ IsSlug text :=
  ⟨fun h => h ▸ isSlug_slug text, IsSlug.slug_eq⟩

end Label

/-! ### Names -/

namespace Grammar

theorem endsId_idTail {text : List Char} (h : endsId text = false) :
    endsId (idTail text).1 = false := by
  cases text with
  | nil => exact absurd h (by decide)
  | cons c rest =>
      have hc : isIdChar c = true := by simpa [endsId] using h
      rw [idTail, hc, Bool.true_or, if_pos rfl]
      simp [endsId, hc]

/-- Whatever is split off as an id is split off again as a whole. -/
theorem idTail_idTail (text : List Char) :
    idTail (idTail text).1 = ((idTail text).1, []) := by
  induction text with
  | nil => rfl
  | cons c rest ih =>
      by_cases hc : (isIdChar c || (c == '-' && !endsId rest)) = true
      · have hhead : (idTail (c :: rest)).1 = c :: (idTail rest).1 := by
          rw [idTail, if_pos hc]
        have hagain : (isIdChar c || (c == '-' && !endsId (idTail rest).1)) =
            true := by
          rw [Bool.or_eq_true, Bool.and_eq_true, Bool.not_eq_true'] at hc ⊢
          exact hc.imp id (And.imp id endsId_idTail)
        rw [hhead, idTail, if_pos hagain, ih]
      · have hnone : (idTail (c :: rest)).1 = [] := by rw [idTail, if_neg hc]
        rw [hnone]
        rfl

theorem isName_of_id? {text id rest : List Char} (h : id? text = some (id, rest)) :
    IsName id := by
  unfold id? at h
  split at h
  next => exact absurd h (by simp)
  next hstart =>
    have hparts : idTail text = (id, rest) := Option.some.inj h
    have hends := endsId_idTail (Bool.not_eq_true _ ▸ hstart)
    have hagain := idTail_idTail text
    rw [hparts] at hends hagain
    rw [IsName, id?, hends, if_neg Bool.false_ne_true, hagain]

theorem isName_of_run {run : List Char} (h : IsIdRun run) : IsName run :=
  isName_iff.mpr ⟨run, [], h, by simp, by simp⟩

theorem IsName.append_run {name run : List Char} (h : IsName name)
    (hrun : IsIdRun run) : IsName (name ++ run) := by
  have hjoin : ∀ {last : List Char}, IsIdRun last → IsIdRun (last ++ run) := by
    intro last hlast
    refine ⟨by simp [hlast.1], ?_⟩
    rw [List.forall_mem_append]
    exact ⟨hlast.2, hrun.2⟩
  obtain ⟨first, runs, hfirst, hruns, rfl⟩ := isName_iff.mp h
  -- The characters go on the last of the runs between the hyphens.
  rcases List.eq_nil_or_concat runs with rfl | ⟨inner, last, rfl⟩
  · rw [List.flatMap_nil, List.append_nil]
    exact isName_of_run (hjoin hfirst)
  · rw [List.concat_eq_append, List.forall_mem_append,
      List.forall_mem_singleton] at hruns
    rw [isName_iff]
    refine ⟨first, inner ++ [last ++ run], hfirst, ?_, by simp⟩
    rw [List.forall_mem_append, List.forall_mem_singleton]
    exact ⟨hruns.1, hjoin hruns.2⟩

theorem isName_of_isSlug {text : List Char} (h : Label.IsSlug text) :
    IsName text := by
  have hid : ∀ {run : List Char}, Label.IsAlphanumericRun run →
      ∀ c ∈ run, isIdChar c = true := by
    intro run hrun c hc
    rw [isIdChar, hrun.2 c hc, Bool.true_or]
  apply isName_of_run
  induction h with
  | run hrun => exact ⟨hrun.1, hid hrun⟩
  | join hrun hrest ih =>
      refine ⟨by simp, ?_⟩
      rw [List.forall_mem_append, List.forall_mem_cons]
      exact ⟨hid hrun, by decide, ih.2⟩

theorem isName_slug (title : List Char) : IsName (Label.slug title) :=
  isName_of_isSlug (Label.isSlug_slug title)

theorem isName_numbered {id : String} (h : IsName id.toList) (number : ℕ) :
    IsName (Draft.numbered id number).toList := by
  have htext : (Draft.numbered id number).toList =
      id.toList ++ '_' :: Nat.toDigits 10 number := by
    simp [Draft.numbered, String.toList_append, Nat.toString_eq_repr]
  rw [htext]
  refine h.append_run ⟨by simp, ?_⟩
  rw [List.forall_mem_cons]
  refine ⟨by decide, fun c hc => ?_⟩
  have hdigit : c.isDigit = true :=
    Nat.isDigit_of_mem_toDigits (by decide) (by decide) hc
  have hascii : c.toNat < 0x80 := by
    simp only [Char.isDigit, UInt32.le_iff_toNat_le, Bool.and_eq_true,
      decide_eq_true_eq] at hdigit
    exact Nat.lt_of_le_of_lt hdigit.2 (by decide)
  rw [isIdChar, isAlphanumeric_ascii hascii, Char.isAlphanum, hdigit,
    Bool.or_true, Bool.true_or]

/-! ### Ids that are asked for -/

theorem isName_requestedId_of_id {header : GroupHeader}
    (h : ∀ id ∈ header.id, IsName id.toList) :
    IsName header.requestedId.toList := by
  unfold GroupHeader.requestedId
  cases hid : header.id with
  | none =>
      rw [Option.getD_none, String.toList_ofList]
      exact isName_slug _
  | some id => exact h id hid

theorem isName_id_titledHeader? {text : List Char} {header : GroupHeader}
    (h : titledHeader? text = some header) :
    ∀ id ∈ header.id, IsName id.toList := by
  obtain ⟨⟨id, rest⟩, hid, h⟩ := Option.bind_eq_some_iff.mp h
  obtain ⟨behind, -, h⟩ := Option.bind_eq_some_iff.mp h
  obtain ⟨title, -, rfl⟩ := Option.map_eq_some_iff.mp h
  rintro _ ⟨rfl⟩
  rw [String.toList_ofList]
  exact isName_of_id? hid

theorem isName_id_plainHeader? {text : List Char} {header : GroupHeader}
    (h : plainHeader? text = some header) :
    ∀ id ∈ header.id, IsName id.toList := by
  obtain ⟨id, hid, rfl⟩ := Option.map_eq_some_iff.mp h
  obtain ⟨rest, hread⟩ := exists_of_whole? hid
  rintro _ ⟨rfl⟩
  rw [String.toList_ofList]
  exact isName_of_id? hread

/-- An id in a header has been read, or it is made from the title. -/
theorem isName_id_groupHeader (text : List Char) :
    ∀ id ∈ (groupHeader text).id, IsName id.toList := by
  unfold groupHeader
  simp only
  generalize withoutAnnotation text = header
  split
  next => simp
  next =>
    cases hread : (titleHeader? header <|> titledHeader? header <|>
        plainHeader? header) with
    | none =>
        rintro _ ⟨rfl⟩
        rw [String.toList_ofList]
        exact isName_slug _
    | some parts =>
        simp only [Option.orElse_eq_some] at hread
        rcases hread with htitle | ⟨-, htitled | ⟨-, hplain⟩⟩
        · obtain ⟨inside, -, rfl⟩ := Option.map_eq_some_iff.mp htitle
          simp
        · exact isName_id_titledHeader? htitled
        · exact isName_id_plainHeader? hplain

theorem isName_requestedId {text : List Char} {offset : ℕ}
    {header : GroupHeader}
    (h : statement? text offset = some (.openGroup header)) :
    IsName header.requestedId.toList := by
  have hopen : openGroup? text = some header := by
    simpa [statement?, Option.orElse_eq_some] using h
  unfold openGroup? at hopen
  split at hopen
  next => exact absurd hopen (by simp)
  next =>
    obtain rfl := Option.some.inj hopen
    exact isName_requestedId_of_id (isName_id_groupHeader [])
  next c rest _ =>
    rw [Option.ite_none_right_eq_some] at hopen
    obtain rfl := Option.some.inj hopen.2
    exact isName_requestedId_of_id (isName_id_groupHeader rest)

end Grammar

/-! ### Ids of a diagram -/

namespace Draft

theorem groupIds_openGroup (draft : Draft) (header : GroupHeader)
    (span : Span) :
    (draft.openGroup header span).groupIds =
      draft.groupIds ++ [(draft.claimId header.requestedId span).1] := by
  have hgroups : (draft.claimId header.requestedId span).2.groups =
      draft.groups := by
    unfold claimId
    split <;> rfl
  have hopen : (draft.openGroup header span).groupIds =
      (draft.claimId header.requestedId span).2.groupIds ++
        [(draft.claimId header.requestedId span).1] := List.map_append
  rw [hopen, groupIds, hgroups, ← groupIds]

theorem groupIds_closeGroup (draft : Draft) (span : Span) :
    (draft.closeGroup span).groupIds = draft.groupIds := by
  unfold closeGroup
  split <;> rfl

theorem isName_claimId (draft : Draft) {requested : String} (span : Span)
    (h : Grammar.IsName requested.toList) :
    Grammar.IsName (draft.claimId requested span).1.toList := by
  cases htaken : draft.isTaken requested with
  | false =>
      rw [claimId_of_free span htaken]
      exact h
  | true =>
      obtain ⟨number, -, hclaim⟩ := claimId_of_taken span htaken
      rw [hclaim]
      exact Grammar.isName_numbered h number

/-- The ids of all groups are names, whatever the statements are that open
them. -/
theorem isName_of_mem_groupIds (direction : Direction) (body : List Fragment) :
    ∀ id ∈ (behind direction (body.map .ofFragment)).groupIds,
      Grammar.IsName id.toList := by
  induction body using List.reverseRecOn with
  | nil => exact List.forall_mem_nil _
  | append_singleton body fragment ih =>
      rw [List.map_append, List.map_singleton, behind_concat]
      obtain ⟨header, hentry, heq⟩ | ⟨-, heq⟩ | hpasses :=
        (behind direction (body.map .ofFragment)).enter_cases
          (.ofFragment fragment)
      · rw [heq, groupIds_openGroup, List.forall_mem_append,
          List.forall_mem_singleton]
        exact ⟨ih, isName_claimId _ _ (Grammar.isName_requestedId hentry)⟩
      · rw [heq, groupIds_closeGroup]
        exact ih
      · rw [groupIds_of_outlines hpasses.outlines_eq]
        exact ih

theorem isName_of_mem_nodes (direction : Direction) (body : List Fragment) :
    ∀ node ∈ (behind direction (body.map .ofFragment)).nodes,
      Grammar.IsName node.id.toList := by
  intro node hnode
  have hnamed := hasNamed_behind direction (body.map Entry.ofFragment)
  have hid := List.mem_map_of_mem (f := fun node => node.id) hnode
  rw [hnamed.map_id_nodes, Body.mem_nodeIds] at hid
  obtain ⟨⟨reference, hreference, hid⟩, -⟩ := hid
  obtain ⟨⟨before, entry⟩, hcontext, hmem⟩ := List.mem_flatMap.mp hreference
  obtain ⟨mention, hmention, rfl⟩ := List.mem_map.mp hmem
  obtain ⟨rest, hbody⟩ := Body.exists_of_mem_contexts hcontext
  obtain ⟨fragment, -, rfl⟩ : ∃ fragment ∈ body, .ofFragment fragment = entry := by
    rw [← List.mem_map, hbody]
    simp
  obtain ⟨start, behind, -, hread⟩ := Entry.isReadIn_of_mem_mentions hmention
  obtain ⟨⟨name, after⟩, hname, hparts⟩ := Option.map_eq_some_iff.mp hread
  obtain ⟨rfl, -⟩ := Prod.mk.inj hparts
  rw [← hid, String.toList_ofList]
  exact Grammar.isName_of_id? hname

end Draft

namespace Diagram

/-- Every id of a diagram that has been read is a name, so that statements can
refer to it.  The id that is made from a title is a slug, and slugs are just the
titles that are their own id. -/
theorem parse_ids_isName :
    (∀ source : List Char, ∀ id ∈ (parse source).diagram.ids,
      Grammar.IsName id.toList) ∧
    ∀ title : List Char,
      Label.slug title ≠ [] ∧ Label.IsSlug (Label.slug title) ∧
        (Label.slug title = title ↔ Label.IsSlug title) ∧
        Label.slug (Label.slug title) = Label.slug title := by
  constructor
  · intro source id hid
    rw [parse_eq_assemble, assemble_eq_closeAll, Draft.ids_diagram] at hid
    rcases List.mem_append.mp hid with hgroup | hnode
    · exact Draft.isName_of_mem_groupIds _ _ id hgroup
    · obtain ⟨node, hmem, rfl⟩ := List.mem_map.mp hnode
      exact Draft.isName_of_mem_nodes _ _ node hmem
  · intro title
    have hslug := Label.isSlug_slug title
    exact ⟨hslug.ne_nil, hslug, Label.slug_eq_self_iff, hslug.slug_eq⟩

/-- An id that is made from a title, one with a number behind it, and one with a
hyphen. -/
theorem parse_ids_isName_numbered :
    let source :=
      "graph TD\nsubgraph My Group!\nend\nsubgraph My_Group\nA-1\nend".toList
    let diagram := (parse source).diagram
    diagram.ids = ["My_Group", "My_Group_2", "A-1"] ∧
      Grammar.IsName "My_Group_2".toList ∧ Grammar.IsName "A-1".toList := by
  intro source diagram
  have hids : diagram.ids = ["My_Group", "My_Group_2", "A-1"] := by
    decide +kernel
  have hall : ∀ id ∈ diagram.ids, Grammar.IsName id.toList :=
    parse_ids_isName.1 source
  rw [hids] at hall
  exact ⟨hids, hall _ (by simp), hall _ (by simp)⟩

end Diagram

end Flowchart
