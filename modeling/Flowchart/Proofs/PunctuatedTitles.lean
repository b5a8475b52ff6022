import Flowchart.Proofs.QuotedLines

/-!
# Punctuation in titles

A title with punctuation gets quotes, and the annotation between bars behind it
stays outside of them.  The reader of group headers finds the same annotation
again, so that what is shown is the title as it was written, without any remark.
-/

namespace Flowchart.Sanitize

open Text

/-- The text is a title and the annotation between bars behind it, if there is
one. -/
inductive IsAnnotated : List Char → List Char → List Char → Prop where
  | plain {text : List Char}
      (h : ∀ before inner, '|' ∉ inner →
        text ≠ before ++ ('|' :: inner ++ ['|'])) : IsAnnotated text text []
  | noted {title gap inner : List Char}
      (hlast : ∀ c ∈ title.getLast?, isWhiteSpace c = false)
      (hgap : ∀ c ∈ gap, isWhiteSpace c = true) (hinner : '|' ∉ inner) :
      IsAnnotated (title ++ (gap ++ ('|' :: inner ++ ['|']))) title
        ('|' :: inner ++ ['|'])

theorem IsAnnotated.annotation?_eq {text title note : List Char}
    (h : IsAnnotated text title note) :
    annotation? text = if note = [] then none else some (title, note) := by
  cases h with
  | plain h =>
      rw [if_pos rfl, Option.eq_none_iff_forall_ne_some]
      intro parts hparts
      obtain ⟨inside, hfinal, hmap⟩ := Option.bind_eq_some_iff.mp hparts
      obtain ⟨⟨before, inner⟩, hcut, -⟩ := Option.map_eq_some_iff.mp hmap
      apply h before inner (not_mem_of_cutLast? hcut)
      rw [eq_of_beforeFinal?_eq_some hfinal, eq_of_cutLast?_eq_some hcut]
      simp
  | @noted title gap inner hlast hgap hinner =>
      have htrim : trimEnd (title ++ gap) = title :=
        (dropWhileEnd_append_of_all title hgap).trans (trimEnd_eq_self hlast)
      rw [if_neg (by simp), ← List.append_assoc, annotation?_append hinner,
        htrim]

theorem IsAnnotated.eq_of_nil {text title : List Char}
    (h : IsAnnotated text title []) : title = text := by
  generalize hnote : [] = note at h
  cases h with
  | plain => rfl
  | noted => exact absurd hnote (by simp)

/-- Every text is split in this way. -/
theorem exists_isAnnotated (text : List Char) :
    ∃ title note, IsAnnotated text title note := by
  by_cases h : ∃ before inner, '|' ∉ inner ∧
      text = before ++ ('|' :: inner ++ ['|'])
  · obtain ⟨before, inner, hinner, rfl⟩ := h
    obtain ⟨gap, hbefore, hgap⟩ :=
      exists_eq_dropWhileEnd_append isWhiteSpace before
    refine ⟨trimEnd before, '|' :: inner ++ ['|'], ?_⟩
    have hnoted := IsAnnotated.noted (last_trimEnd before) hgap hinner
    have hwhole : trimEnd before ++ gap = before := hbefore.symm
    rwa [← List.append_assoc, hwhole] at hnoted
  · refine ⟨text, [], .plain fun before inner hinner heq => ?_⟩
    exact h ⟨before, inner, hinner, heq⟩

end Flowchart.Sanitize

namespace Flowchart.Diagram

open Text Sanitize Fragment Grammar Keyword

/-- A diagram of one empty group with a title. -/
def titled (text : List Char) : List Char :=
  "graph TD\n".toList ++ ("subgraph ".toList ++ text ++ "\nend".toList)

section Titles

variable {text title note : List Char}

theorem trim_titled (text : List Char) : trim (titled text) = titled text := by
  apply IsTrimmed.trim_eq
  apply isTrimmed_header (c := 'd') _ (by decide)
  rw [List.getLast?_append]
  rfl

theorem lines_titled {line : List Char} (h : '\n' ∉ line) :
    lines ("graph TD\n".toList ++ (line ++ "\nend".toList)) =
      ["graph TD".toList, line, "end".toList] := by
  have hline : ∀ other ∈ [line], '\n' ∉ other := by simpa using h
  have hend := lines_preceding_append hline "end".toList
  have hshape : preceding [line] ++ "end".toList = line ++ "\nend".toList := by
    simp [preceding]
  rw [hshape] at hend
  rw [lines_header, hend]
  rfl

/-- A title that calls for quotes, as the rule for titles finds it. -/
structure IsPunctuatedTitle (text title note : List Char) : Prop where
  trimmed : IsTrimmed text
  line : '\n' ∉ text
  bracket : '[' ∉ text
  unquoted : text.head? ≠ some '"'
  annotated : IsAnnotated text title note
  seamless : IsSeamless note
  marks : needsQuotes title = true

namespace IsPunctuatedTitle

/-- What stands behind the closing quote. -/
def tail (note : List Char) : List Char :=
  if note = [] then [] else ' ' :: note

theorem ne_nil (h : IsPunctuatedTitle text title note) : title ≠ [] := by
  rintro rfl
  exact absurd h.marks (by decide)

theorem exists_eq_append (h : IsPunctuatedTitle text title note) :
    ∃ rest, text = title ++ rest := by
  cases h.annotated with
  | plain => exact ⟨[], by simp⟩
  | noted => exact ⟨_, rfl⟩

theorem quotedName?_eq (h : IsPunctuatedTitle text title note) :
    quotedName? text =
      some ('"' :: (escape title ++ '"' :: tail note)) := by
  have hbare : isBareTitle title = true := by
    obtain ⟨rest, rfl⟩ := h.exists_eq_append
    obtain ⟨c, letters, rfl⟩ := List.exists_cons_of_ne_nil h.ne_nil
    have hunquoted := h.unquoted
    simp_all [isBareTitle, h.marks]
  have hplain : (text.head? == some '"' || text.contains '[') = false := by
    simp [h.unquoted, h.bracket]
  rw [quotedName?, hplain, h.annotated.annotation?_eq, tail]
  by_cases hnote : note = []
  · subst hnote
    obtain rfl := h.annotated.eq_of_nil
    simp [hbare]
  · simp [hnote, hbare]

theorem withoutAnnotation_eq_title (h : IsPunctuatedTitle text title note) :
    withoutAnnotation text = title := by
  rw [withoutAnnotation_eq, h.trimmed.trim_eq, h.annotated.annotation?_eq]
  split
  next hnote =>
    subst hnote
    exact h.annotated.eq_of_nil.symm
  next => rfl

/-- The title in quotes, with its annotation. -/
def quoted (title note : List Char) : List Char :=
  '"' :: (escape title ++ '"' :: tail note)

theorem withoutAnnotation_quoted (h : IsPunctuatedTitle text title note) :
    withoutAnnotation (quoted title note) =
      '"' :: (escape title ++ ['"']) := by
  obtain ⟨other, -, -, hread⟩ :=
    withoutAnnotation_quotedName h.trimmed h.quotedName?_eq
  obtain ⟨hname, hquoted⟩ := hread [] (by simp)
  rw [List.nil_append, h.withoutAnnotation_eq_title] at hname
  rw [← hname] at hquoted
  exact hquoted

theorem isTitleStart_subgraph : IsTitleStart "subgraph ".toList :=
  ⟨[], [' '], rfl, by simp, by simp, List.forall_mem_singleton.mpr (by decide)⟩

theorem line_subgraph (h : IsPunctuatedTitle text title note) :
    '\n' ∉ "subgraph ".toList ++ text := by
  rw [List.mem_append, not_or]
  exact ⟨by decide, h.line⟩

theorem quoteTitle_eq (h : IsPunctuatedTitle text title note) :
    quoteTitle ("subgraph ".toList ++ text) =
      "subgraph ".toList ++ quoted title note := by
  have hne : text ≠ [] := by
    obtain ⟨rest, rfl⟩ := h.exists_eq_append
    simp [h.ne_nil]
  have htitle : titleOf? ("subgraph ".toList ++ text) =
      some ("subgraph ".toList, text) := by
    rw [titleOf?_eq_some_iff]
    exact ⟨isTitleStart_subgraph, hne, h.trimmed, [], by simp, by simp⟩
  rw [Sanitize.quoteTitle_eq, retitled?, htitle, Option.bind_some]
  simp only [h.quotedName?_eq, Option.map_some, Option.getD_some]
  rfl

theorem lines_quotedText (h : IsPunctuatedTitle text title note) :
    lines (quotedText (titled text)) =
      ["graph TD".toList, "subgraph ".toList ++ quoted title note,
        "end".toList] := by
  have hplain : '[' ∉ titled text := by
    have hheader : '[' ∉ "graph TD\n".toList := by decide
    have hgroup : '[' ∉ "subgraph ".toList := by decide
    have hend : '[' ∉ "\nend".toList := by decide
    unfold titled
    simp only [List.mem_append, hheader, hgroup, hend, h.bracket, or_self,
      not_false_eq_true]
  have hlabels : quoteLabels (titled text) = titled text :=
    quoteLabelsFrom_eq_self_iff.mpr (isQuiet_of_not_mem hplain)
  have hheader : quoteTitle "graph TD".toList = "graph TD".toList := by
    decide +kernel
  have hend : quoteTitle "end".toList = "end".toList := by decide +kernel
  rw [Sanitize.quotedText, lines_quoteTitles, trim_titled, hlabels]
  unfold titled
  rw [lines_titled h.line_subgraph, List.map_cons, List.map_cons, List.map_singleton,
    hheader, hend, h.quoteTitle_eq]

theorem isWhole_quoted (h : IsPunctuatedTitle text title note) :
    IsWhole ("subgraph ".toList ++ quoted title note) := by
  have htail : IsSeamless (tail note) := by
    rw [tail]
    split
    · exact ⟨by simp, by simp⟩
    · exact ⟨by simp [h.seamless.1], by simp [h.seamless.2]⟩
  exact Sanitize.isWhole_quoted ⟨by decide, by decide⟩ htail title

theorem lineStatements_quoted (h : IsPunctuatedTitle text title note) :
    lineStatements ("subgraph ".toList ++ quoted title note) =
      ["subgraph ".toList ++ quoted title note] := by
  have htrimmed := isTrimmed_quotedName h.quotedName?_eq
  have hlast : ("subgraph ".toList ++ quoted title note).getLast? =
      (quoted title note).getLast? := by
    rw [List.getLast?_append]
    rfl
  apply lineStatements_of_isWhole h.isWhole_quoted ⟨?_, ?_⟩ (by simp)
  · rintro ⟨⟩
  · rintro c ⟨rfl⟩
    decide
  · rw [hlast]
    exact htrimmed.last

theorem statements_sanitize (h : IsPunctuatedTitle text title note) :
    statements (sanitize (titled text)) =
      ["graph TD".toList, "subgraph ".toList ++ quoted title note,
        "end".toList] := by
  have hgroup : opensLine ("subgraph ".toList ++ text) = false :=
    not_opensLine_of_isTitleStart isTitleStart_subgraph text
  have hone : (positions (trim (titled text))).length ≤ 1 := by
    have hend : opensLine "end".toList = false := by decide
    rw [positions, List.length_map, length_occurrences, trim_titled]
    unfold titled
    rw [lines_titled h.line_subgraph, List.countP_cons, List.countP_cons,
      List.countP_singleton, hgroup, hend]
    simp only [Bool.false_eq_true, if_false]
    split <;> omega
  have hclosed : ∀ line ∈ lines (Sanitize.quotedText (titled text)),
      Quote.closed.after line = .closed := by
    rw [h.lines_quotedText]
    simp only [List.forall_mem_cons, List.not_mem_nil, false_implies,
      implies_true, and_true]
    exact ⟨by decide, h.isWhole_quoted.closed, by decide⟩
  have hend : lineStatements "end".toList = ["end".toList] := by decide +kernel
  rw [Diagram.statements_sanitize hone hclosed, h.lines_quotedText,
    List.flatMap_cons, List.flatMap_cons, List.flatMap_singleton,
    lineStatements_header, h.lineStatements_quoted, hend]
  rfl

end IsPunctuatedTitle

theorem assemble_group {opening closing : Fragment} {title : String}
    (hopening : statement? opening.text opening.span.start =
      some (.openGroup ⟨none, some title⟩))
    (hclosing : statement? closing.text closing.span.start = some .closeGroup)
    (direction : Direction) :
    assemble direction [opening, closing] =
      ⟨{ direction := direction
         groups := [⟨String.ofList (Label.slug title.toList), title, [], none,
          none⟩] }, []⟩ := by
  rw [assemble, List.foldl_cons, List.foldl_cons, Draft.read, Draft.read,
    hopening, hclosing]
  rfl

/-- A title with punctuation gets its quotes and is shown as it was written,
without its annotation; the id of the group is derived from it. -/
theorem parse_sanitize_titled (h : IsPunctuatedTitle text title note) :
    let shown := Label.normalize title false
    parse (sanitize (titled text)) =
      ⟨{ groups := [⟨String.ofList (Label.slug shown), String.ofList shown, [],
          none, none⟩] }, []⟩ := by
  intro shown
  obtain ⟨fragments, htexts, hparse⟩ := exists_parse_eq h.statements_sanitize
  obtain ⟨opening, rest, rfl, hopening, hrest⟩ := List.map_eq_cons_iff.mp htexts
  obtain ⟨closing, rfl, hclosing⟩ := List.map_eq_singleton_iff.mp hrest
  have hgroup : openGroup? opening.text =
      some ⟨none, some (String.ofList shown)⟩ := by
    have hline : '\n' ∉ title := by
      obtain ⟨rest, rfl⟩ := h.exists_eq_append
      exact fun hmem => h.line (List.mem_append_left rest hmem)
    have hword : opening.text =
        "subgraph".toList ++ ' ' :: IsPunctuatedTitle.quoted title note :=
      hopening
    have hblank : isFiller ' ' = true := by decide
    rw [hword, openGroup?, after?_append]
    simp only [hblank, if_true,
      groupHeader_quoted h.withoutAnnotation_quoted hline]
    rfl
  have hread : statement? opening.text opening.span.start =
      some (.openGroup ⟨none, some (String.ofList shown)⟩) := by
    rw [statement?, hgroup]
    rfl
  have hend : statement? closing.text closing.span.start = some .closeGroup := by
    rw [hclosing]
    rfl
  rw [hparse, assemble_group hread hend, direction_header, String.toList_ofList]

end Titles

theorem parse_sanitize_titled_note :
    let text := "He said \"hi; bye\": a|b \\ (x)  |since (2)|".toList
    let title := "He said \"hi; bye\": a|b \\ (x)".toList
    IsPunctuatedTitle text title "|since (2)|".toList ∧
      parse (sanitize (titled text)) =
        ⟨{ groups := [⟨"He_said_hi_bye_a_b_x",
            "He said \"hi; bye\": a|b \\ (x)", [], none, none⟩] }, []⟩ := by
  intro text title
  have hlast : ∀ c ∈ title.getLast?, isWhiteSpace c = false := by
    rintro c ⟨rfl⟩
    decide
  have hgap : ∀ c ∈ "  ".toList, isWhiteSpace c = true :=
    List.all_eq_true.mp (by decide)
  have hinner : '|' ∉ "since (2)".toList := by decide
  have hannotated := IsAnnotated.noted hlast hgap hinner
  have htrimmed : IsTrimmed text := by
    constructor <;> (rintro c ⟨rfl⟩; decide)
  have htext : IsPunctuatedTitle text title "|since (2)|".toList :=
    ⟨htrimmed, by decide, by decide, by decide, hannotated,
      ⟨by decide, by decide⟩, by decide⟩
  have hshown : Label.normalize title false = title := by decide +kernel
  have hslug : Label.slug title = "He_said_hi_bye_a_b_x".toList := by
    decide +kernel
  have hparse := parse_sanitize_titled htext
  simp only [hshown, hslug] at hparse
  exact ⟨htext, hparse⟩

end Flowchart.Diagram
