import Flowchart.Proofs.BareLabels
import Flowchart.Proofs.QuotedLines

/-!
# Punctuation in labels

A label with punctuation gets quotes, and its own quotes and backslashes are
escaped.  Four readers then have to find the same end of it: the splitter into
statements, the reader of quoted strings, the one of labels, and the one that
resolves the escapes.  What is shown in the end is the label as it was written.

One id in front of a label is not safe: ids have more letters and numbers than
words in running text, and a keyword with one of these behind it is taken for
the header of a second diagram, with which the first one ends.
-/

namespace Flowchart.Sanitize

open Text

theorem quoteLabelsFrom_append {plain : List Char} (hquote : '"' ∉ plain)
    (hbracket : '[' ∉ plain) (previous : Option Char) (rest : List Char) :
    quoteLabelsFrom .closed previous (plain ++ rest) =
      plain ++ quoteLabelsFrom .closed (plain.getLast?.or previous) rest := by
  induction plain generalizing previous with
  | nil => rfl
  | cons c plain ih =>
      rw [List.mem_cons, not_or] at hquote hbracket
      have hstep : Quote.closed.step c = .closed := if_neg (Ne.symm hquote.1)
      have hlast : (c :: plain).getLast?.or previous =
          plain.getLast?.or (some c) := by
        cases hplain : plain.getLast? <;> simp [List.getLast?_cons, hplain]
      have hnone : c = '[' → bareLabel? previous (plain ++ rest) = none :=
        fun hc => absurd hc.symm hbracket.1
      rw [List.cons_append, quoteLabelsFrom_of_none fun _ => hnone, hstep,
        ih hquote.2 hbracket.2, hlast, List.cons_append]

end Flowchart.Sanitize

namespace Flowchart.Keyword

open Text Grammar

/-! ### Ids that look like headers -/

/-- Nothing, or a mark such as `-v2`. -/
def IsVersionMark (mark : List Char) : Prop :=
  mark = [] ∨ ∃ digits, digits ≠ [] ∧ (∀ d ∈ digits, isDigit d = true) ∧
    mark = '-' :: 'v' :: digits

/-- Behind a keyword the id goes on with a letter or a number that is no
character of a word, such as `²`. -/
def LooksLikeHeader (name : List Char) : Prop :=
  ∃ keyword ∈ all, ∃ mark c rest, name = keyword ++ (mark ++ c :: rest) ∧
    IsVersionMark mark ∧ isWordChar c = false ∧ c ≠ '-'

theorem afterVersion_spec (text : List Char) :
    ∃ mark, text = mark ++ afterVersion text ∧ IsVersionMark mark ∧
      (endsWord text = true → endsWord (afterVersion text) = true) := by
  cases hversion : startsVersion text with
  | false =>
      rw [afterVersion_of_not_startsVersion hversion]
      exact ⟨[], rfl, .inl rfl, id⟩
  | true =>
      obtain ⟨d, rest, rfl, hd⟩ := startsVersion_eq_true_iff.mp hversion
      rw [afterVersion]
      split
      next hmark =>
        rw [Bool.and_eq_true] at hmark
        refine ⟨'-' :: 'v' :: d :: rest.takeWhile isDigit, ?_,
          .inr ⟨d :: rest.takeWhile isDigit, by simp, ?_, rfl⟩,
          fun _ => hmark.2⟩
        · simp
        · rw [List.forall_mem_cons]
          exact ⟨hd, fun c hc => List.mem_takeWhile_imp hc⟩
      next => exact ⟨[], rfl, .inl rfl, id⟩

theorem afterVersion_append_mark {mark : List Char} (hmark : IsVersionMark mark)
    {c : Char} (hc : isWordChar c = false) (hhyphen : c ≠ '-')
    (rest : List Char) : afterVersion (mark ++ c :: rest) = c :: rest := by
  have hdigit : isDigit c = false := by
    rw [Bool.eq_false_iff]
    intro hdigit
    rw [isWordChar_of_isDigit hdigit] at hc
    exact Bool.noConfusion hc
  rcases hmark with rfl | ⟨digits, hne, hdigits, rfl⟩
  · apply afterVersion_of_not_startsVersion
    rw [List.nil_append, Bool.eq_false_iff]
    intro hversion
    obtain ⟨d, tail, htext, -⟩ := startsVersion_eq_true_iff.mp hversion
    exact hhyphen (List.cons.inj htext).1
  · obtain ⟨d, digits, rfl⟩ := List.exists_cons_of_ne_nil hne
    rw [List.forall_mem_cons] at hdigits
    have hdrop : (digits ++ c :: rest).dropWhile isDigit = c :: rest := by
      rw [List.dropWhile_append_of_pos hdigits.2,
        List.dropWhile_cons_of_neg (by simp [hdigit])]
    have hends : endsWord (c :: rest) = true := by simp [endsWord, hc]
    rw [List.cons_append, List.cons_append, List.cons_append, afterVersion]
    simp only [hdrop, hdigits.1, hends, Bool.and_self, if_true]

theorem dropWhile_isBlank_name {name : List Char} (hname : IsName name)
    (rest : List Char) : (name ++ rest).dropWhile isBlank = name ++ rest := by
  obtain ⟨c, letters, hcons, -⟩ := exists_cons_of_isName hname
  have hfiller := isFiller_of_mem_name hname (c := c) (by simp [hcons])
  rw [hcons, List.cons_append, List.dropWhile_cons_of_neg]
  simp_all [isFiller]

theorem takeWhile_isBlank_name {name : List Char} (hname : IsName name)
    (rest : List Char) : (name ++ rest).takeWhile isBlank = [] := by
  have hsplit := List.takeWhile_append_dropWhile (p := isBlank) (l := name ++ rest)
  rwa [dropWhile_isBlank_name hname, List.append_left_eq_self] at hsplit

/-- Which ids in front of a label are taken for the header of a diagram. -/
theorem opensLine_name_iff {name : List Char} (hname : IsName name)
    (label : List Char) :
    opensLine (name ++ '[' :: label) = true ↔ LooksLikeHeader name := by
  rw [opensLine, dropWhile_isBlank_name hname, Option.isSome_iff_exists]
  constructor
  · rintro ⟨⟨keyword, rest⟩, hopening⟩
    obtain ⟨hmem, htext, hends, hstays⟩ := opening?_eq_some_iff.mp hopening
    have hword : keyword.all isIdChar = true := by
      have hall : ∀ keyword ∈ all, keyword.all isIdChar = true := by decide
      exact hall keyword hmem
    obtain ⟨inner, rfl, rfl⟩ := exists_of_after?_name hword rfl
      (after?_eq_some_iff.mpr htext)
    obtain ⟨mark, hinner, hmark, hword'⟩ := afterVersion_spec inner
    rw [(isInert_bracket label).endsWord_append] at hends
    rw [(isInert_bracket label).afterVersion_append] at hstays
    cases hbehind : afterVersion inner with
    | nil =>
        rw [hbehind] at hstays
        exact absurd hstays (by simp [continuesStatement, isBlank, continuations])
    | cons c more =>
        have hmemName : c ∈ keyword ++ inner := by
          rw [hinner, hbehind]
          simp
        have hfiller := isFiller_of_mem_name hname hmemName
        rw [hbehind] at hstays hinner
        refine ⟨keyword, hmem, mark, c, more, by rw [← hinner], hmark, ?_, ?_⟩
        · have hends' := hword' hends
          rw [hbehind] at hends'
          simpa [endsWord] using hends'
        · rintro rfl
          exact absurd hstays (by simp [continuesStatement, isBlank, continuations])
  · rintro ⟨keyword, hmem, mark, c, rest, rfl, hmark, hc, hhyphen⟩
    have hmemName : c ∈ keyword ++ (mark ++ c :: rest) := by simp
    have hclass := isClassChar_of_mem_name hname hmemName
    have hfiller := isFiller_of_mem_name hname hmemName
    refine ⟨(keyword, mark ++ c :: (rest ++ '[' :: label)), ?_⟩
    rw [opening?_eq_some_iff]
    refine ⟨hmem, by simp, ?_, ?_⟩
    · rcases hmark with rfl | ⟨digits, -, -, rfl⟩
      · simp [endsWord, hc]
      · rfl
    · have hcontinues : c ∉ continuations := by
        have hall : continuations.all
            (fun d => d == '-' || !isClassChar d) = true := by decide
        intro hmem
        have hother := List.all_eq_true.mp hall c hmem
        rw [hclass, Bool.or_eq_true, beq_iff_eq] at hother
        exact hother.elim hhyphen Bool.noConfusion
      have hblank : isBlank c = false := by simp_all [isFiller]
      rw [afterVersion_append_mark hmark hc hhyphen, continuesStatement,
        List.dropWhile_cons_of_neg (by simp [hblank])]
      simpa using hcontinues

end Flowchart.Keyword

namespace Flowchart.Diagram

open Text Sanitize Fragment Grammar Keyword

theorem assemble_node {fragment : Fragment} {id : String}
    {definition : Definition} {span : Span}
    (h : statement? fragment.text fragment.span.start =
      some (.nodes [⟨id, some definition, span⟩])) (direction : Direction) :
    assemble direction [fragment] =
      ⟨{ direction := direction
         nodes := [⟨id,
          if definition.label.isEmpty then id else definition.label,
          definition.shape, none⟩] }, []⟩ := by
  rw [assemble, List.foldl_cons, Draft.read, h]
  rfl

/-- A label that gets quotes between brackets. -/
structure IsPunctuated (body : List Char) : Prop where
  balanced : depthAfter? 0 body = some 0
  opens : opensLabel body = true
  marks : needsQuotes body = true

/-- A diagram of one node with a label in brackets. -/
def labelled (name body : List Char) : List Char :=
  "graph TD\n".toList ++ (name ++ '[' :: (body ++ [']']))

section Labels

variable {name body : List Char}

theorem trim_labelled (name body : List Char) :
    trim (labelled name body) = labelled name body := by
  apply IsTrimmed.trim_eq
  apply isTrimmed_header (c := ']') _ (by decide)
  rw [← List.cons_append, ← List.append_assoc, List.getLast?_concat]

theorem not_mem_name (hname : IsName name) {c : Char}
    (hc : isClassChar c = false) : c ∉ name := by
  intro hmem
  rw [isClassChar_of_mem_name hname hmem] at hc
  exact Bool.noConfusion hc

theorem lines_labelled (hname : IsName name) (hbody : IsPunctuated body) :
    lines (labelled name body) =
      ["graph TD".toList, name ++ '[' :: (body ++ [']'])] := by
  have hline := not_mem_of_depthAfter? hbody.balanced
  have hbreak : '\n' ∉ name ++ '[' :: (body ++ [']']) := by
    simp [hline, not_mem_name hname (by decide : isClassChar '\n' = false)]
  unfold labelled
  rw [lines_header, lines, List.splitOn_eq_singleton hbreak]

theorem quoteLabels_labelled (hname : IsName name) (hbody : IsPunctuated body) :
    quoteLabels (labelled name body) =
      "graph TD\n".toList ++ (name ++ quotedLabel body) := by
  have hplain : ∀ c, c ∉ "graph TD\n".toList → isClassChar c = false →
      c ∉ "graph TD\n".toList ++ name := by
    intro c hheader hc
    rw [List.mem_append, not_or]
    exact ⟨hheader, not_mem_name hname hc⟩
  obtain ⟨c, rest, hcons, -⟩ := exists_cons_of_isName hname
  obtain ⟨init, last, hlast⟩ : ∃ init last, name = init ++ [last] := by
    have := (List.eq_nil_or_concat name).resolve_left (by simp [hcons])
    simpa using this
  have hprevious : ("graph TD\n".toList ++ name).getLast?.or none =
      some last := by
    rw [hlast, ← List.append_assoc, List.getLast?_concat]
    rfl
  have hopens : opensLabel (body ++ [']']) = true := by
    rw [← hbody.opens]
    apply opensLabel_congr
    cases body with
    | nil => exact absurd hbody.opens (by decide)
    | cons c body => rfl
  have hlabel : bareLabel? (some last) (body ++ [']']) = some (body, []) := by
    rw [bareLabel?_eq_some_iff]
    exact ⟨isClassChar_of_mem_name hname (by simp [hlast]), hopens, rfl,
      hbody.balanced, hbody.marks⟩
  unfold quoteLabels labelled
  rw [← List.append_assoc,
    quoteLabelsFrom_append (hplain '"' (by decide) (by decide))
      (hplain '[' (by decide) (by decide)),
    hprevious, quoteLabelsFrom_of_some hlabel, quoteLabelsFrom, List.append_nil,
    List.append_assoc]

theorem lines_quotedText_labelled (hname : IsName name)
    (hbody : IsPunctuated body) :
    lines (quotedText (labelled name body)) =
      ["graph TD".toList, name ++ quotedLabel body] := by
  have hbreak : '\n' ∉ name ++ quotedLabel body := by
    have hlabel :=
      not_mem_quotedLabel (not_mem_of_depthAfter? hbody.balanced)
    simp [hlabel, not_mem_name hname (by decide : isClassChar '\n' = false)]
  have hheader : quoteTitle "graph TD".toList = "graph TD".toList := by
    decide +kernel
  have hnode : quoteTitle (name ++ quotedLabel body) =
      name ++ quotedLabel body :=
    quoteTitle_of_none (retitled?_of_mem (by simp [quotedLabel]))
  rw [quotedText, lines_quoteTitles, trim_labelled,
    quoteLabels_labelled hname hbody, lines_header, lines,
    List.splitOn_eq_singleton hbreak, List.map_cons, List.map_singleton,
    hheader, hnode]

theorem isWhole_labelled (hname : IsName name) (body : List Char) :
    IsWhole (name ++ quotedLabel body) := by
  have hstart : IsSeamless (name ++ ['[']) := by
    constructor
    · simp [not_mem_name hname (by decide : isClassChar '"' = false)]
    · simp [not_mem_name hname (by decide : isClassChar ';' = false)]
  have hend : IsSeamless [']'] := ⟨by decide, by decide⟩
  have hwhole := isWhole_quoted hstart hend body
  have hshape : name ++ quotedLabel body =
      name ++ ['['] ++ '"' :: (escape body ++ '"' :: [']']) := by
    simp [quotedLabel]
  rwa [hshape]

theorem lineStatements_labelled (hname : IsName name) (body : List Char) :
    lineStatements (name ++ quotedLabel body) = [name ++ quotedLabel body] := by
  obtain ⟨c, rest, hcons, hc⟩ := exists_cons_of_isName hname
  apply lineStatements_of_isWhole (isWhole_labelled hname body)
    (isTrimmed_name_append hname (getLast?_quotedLabel body)).1
  · simp [hcons]
  · rw [hcons]
    rintro ⟨rfl⟩
    exact absurd hc (by decide)

theorem statements_labelled (hname : IsName name) (hbody : IsPunctuated body)
    (hheader : ¬ LooksLikeHeader name) :
    statements (sanitize (labelled name body)) =
      ["graph TD".toList, name ++ quotedLabel body] := by
  have hlines := lines_quotedText_labelled hname hbody
  have hone : (positions (trim (labelled name body))).length ≤ 1 := by
    rw [positions, List.length_map, length_occurrences, trim_labelled,
      lines_labelled hname hbody, List.countP_cons, List.countP_singleton,
      if_neg (mt (opensLine_name_iff hname _).mp hheader)]
    split <;> omega
  have hclosed : ∀ line ∈ lines (quotedText (labelled name body)),
      Quote.closed.after line = .closed := by
    rw [hlines, List.forall_mem_cons, List.forall_mem_singleton]
    exact ⟨by decide, (isWhole_labelled hname body).closed⟩
  rw [statements_sanitize hone hclosed, hlines, List.flatMap_cons,
    List.flatMap_singleton, lineStatements_header,
    lineStatements_labelled hname body, List.singleton_append]

theorem sanitize_labelled_of_looksLikeHeader (hname : IsName name)
    (hbody : IsPunctuated body) (hheader : LooksLikeHeader name) :
    sanitize (labelled name body) = "graph TD".toList := by
  have hnext : opensLine (name ++ quotedLabel body) = true :=
    (opensLine_name_iff hname _).mpr hheader
  have htwo : lines (quotedText (labelled name body)) =
      [] ++ "graph TD".toList :: ([] ++ (name ++ quotedLabel body) :: []) :=
    lines_quotedText_labelled hname hbody
  have hfirst := firstDiagram_of_two htwo (by simp) (by decide) (by simp) hnext
  rw [takeWhile_isBlank_name hname] at hfirst
  exact (congrArg trim hfirst).trans (by decide +kernel)

/-- A label with punctuation gets its quotes and is read as it was written, as
the only node of the diagram, unless the id looks like a header itself. -/
theorem parse_sanitize_labelled (hname : IsName name)
    (hbody : IsPunctuated body) :
    let shown := Label.normalize body false
    (¬ LooksLikeHeader name →
      parse (sanitize (labelled name body)) =
        ⟨{ nodes := [⟨String.ofList name,
            String.ofList (if shown.isEmpty then name else shown),
            .rectangle, none⟩] }, []⟩) ∧
      (LooksLikeHeader name →
        sanitize (labelled name body) = "graph TD".toList ∧
          parse (sanitize (labelled name body)) = ⟨{}, []⟩) := by
  intro shown
  constructor
  · intro hheader
    obtain ⟨fragments, htexts, hparse⟩ :=
      exists_parse_eq (statements_labelled hname hbody hheader)
    obtain ⟨fragment, rfl, htext⟩ := List.map_eq_singleton_iff.mp htexts
    have hdefinition :=
      definition?_quoted (not_mem_of_depthAfter? hbody.balanced) []
    rw [List.append_nil] at hdefinition
    have hread := statement?_node hname hdefinition fragment.span.start
    rw [← htext] at hread
    have hempty : (String.ofList shown).isEmpty = shown.isEmpty := by
      rw [Bool.eq_iff_iff, String.isEmpty_iff, List.isEmpty_iff]
      simp
    rw [hparse, assemble_node hread, direction_header, apply_ite String.ofList]
    simp only [← hempty]
    rfl
  · intro hheader
    have hsanitize := sanitize_labelled_of_looksLikeHeader hname hbody hheader
    refine ⟨hsanitize, ?_⟩
    rw [hsanitize]
    decide +kernel

end Labels

theorem parse_sanitize_labelled_version :
    let name := "graph-v2".toList
    let body := "say \"x; y\" [1] \\ <b>z</b>".toList
    IsName name ∧ IsPunctuated body ∧ ¬ LooksLikeHeader name ∧
      parse (sanitize (labelled name body)) =
        ⟨{ nodes := [⟨"graph-v2", "say \"x; y\" [1] \\ z", .rectangle,
            none⟩] }, []⟩ := by
  intro name body
  have hname : IsName name := rfl
  have hbody : IsPunctuated body := ⟨by decide, by decide, by decide⟩
  have hheader : ¬ LooksLikeHeader name :=
    mt (opensLine_name_iff hname []).mpr (by decide)
  have hshown : Label.normalize body false =
      "say \"x; y\" [1] \\ z".toList := by decide +kernel
  have hparse := (parse_sanitize_labelled hname hbody).1 hheader
  rw [hshown] at hparse
  exact ⟨hname, hbody, hheader, hparse⟩

/-- A letter that only ids have hides a node from the keyword in its id. -/
theorem parse_sanitize_labelled_ne :
    ¬ ∀ name body : List Char, IsName name → IsPunctuated body →
      (parse (sanitize (labelled name body))).diagram.nodes.length = 1 := by
  intro h
  have hname : IsName "graph²".toList := by
    unfold IsName
    decide +kernel
  exact absurd
    (h "graph²".toList "a,b".toList hname ⟨by decide, by decide, by decide⟩)
    (by decide +kernel)

end Flowchart.Diagram
