import Flowchart.Proofs.QuotedTitles
import Flowchart.Proofs.Statements
import Mathlib.Data.List.Forall2

/-!
# What a sanitized text means

Sanitizing rewrites text before the grammar sees it, by rules that look at
single characters and lines.  The diagram stays the same where these rules and
the grammar agree: every label that gets quotes is the label of a node, every
title that gets quotes is all that its line says, and no line leaves a quote
open.  They need not agree, not even in a text without any remark.
-/

namespace Flowchart.Grammar

open Text Sanitize

/-- The second text is the first one with quotes around labels of its nodes, or
around a title behind the id of a group. -/
inductive QuotedStatement : List Char → List Char → Prop where
  | same (text : List Char) : QuotedStatement text text
  | chain {text out : List Char} (hchain : QuotedChain text out)
      (hgroup : openGroup? text = none) (hopens : Keyword.opens text = false)
      (hline : '\n' ∉ text) : QuotedStatement text out
  | group {c : Char} {gap name body note : List Char}
      (hc : isFiller c = true) (hgap : ∀ c ∈ gap, isWhiteSpace c = true)
      (hname : IsName name) (hbody : IsLabelBody body) (hnote : IsNote note)
      (hline : '\n' ∉ c :: (gap ++ (name ++ '[' :: (body ++ ']' :: note)))) :
      QuotedStatement
        ("subgraph".toList ++
          c :: (gap ++ (name ++ '[' :: (body ++ ']' :: note))))
        ("subgraph".toList ++
          c :: (gap ++ (name ++ (quotedLabel body ++ note))))

theorem QuotedStatement.meaning_eq {text out : List Char}
    (h : QuotedStatement text out) : meaning out = meaning text := by
  cases h with
  | same => rfl
  | chain hchain hgroup hopens hline =>
      exact hchain.meaning_eq hgroup hopens hline
  | group hc hgap hname hbody hnote hline =>
      exact meaning_labelledGroup hc hgap hname hbody hnote hline

end Flowchart.Grammar

namespace Flowchart.Sanitize

open Text Grammar Fragment

/-- The line holds a single piece of text and leaves no quote open. -/
structure IsWhole (line : List Char) : Prop where
  closed : Quote.closed.after line = .closed
  pieces : pieces .closed 0 line = [line]

/-- The rules for labels and titles quote what the grammar takes for labels and
titles. -/
structure IsFaithful (line : List Char) : Prop where
  closed : Quote.closed.after line = .closed
  closed_quoteLabels : Quote.closed.after (quoteLabels line) = .closed
  labels : List.Forall₂ QuotedStatement (lineStatements line)
    (lineStatements (quoteLabels line))
  title : ∀ out, retitled? line = some out →
    (openGroup? (trim line)).isSome = true ∧ IsWhole line ∧ IsWhole out

theorem isFaithful_of_quoteLabels_eq {line : List Char}
    (hclosed : Quote.closed.after line = .closed)
    (hlabels : quoteLabels line = line)
    (htitle : ∀ out, retitled? line = some out →
      (openGroup? (trim line)).isSome = true ∧ IsWhole line ∧ IsWhole out) :
    IsFaithful line := by
  refine ⟨hclosed, hlabels.symm ▸ hclosed, ?_, htitle⟩
  rw [hlabels]
  exact List.forall₂_same.mpr fun text _ => .same text

theorem isFaithful_of_eq {line : List Char}
    (hclosed : Quote.closed.after line = .closed)
    (hlabels : quoteLabels line = line) (htitle : retitled? line = none) :
    IsFaithful line := by
  apply isFaithful_of_quoteLabels_eq hclosed hlabels
  intro out hout
  rw [htitle] at hout
  exact absurd hout (by simp)

theorem Quoting.eq_of_not_mem {quote : Quote} {previous : Option Char}
    {text out : List Char} (h : Quoting quote previous text out)
    (hout : '[' ∉ out) : out = text := by
  induction h with
  | nil => rfl
  | keep _ _ ih =>
      rw [List.mem_cons, not_or] at hout
      rw [ih hout.2]
  | label _ _ _ => exact absurd (by simp [quotedLabel]) hout

theorem quoteLabels_of_retitled? {line out : List Char}
    (h : retitled? (quoteLabels line) = some out) : quoteLabels line = line := by
  apply (quoting .closed none line).eq_of_not_mem
  intro hmem
  have hnone : retitled? (quoteLabels line) = none := retitled?_of_mem hmem
  rw [h] at hnone
  exact absurd hnone (by simp)

theorem isSkipped_subgraph {line rest : List Char}
    (h : trim line = "subgraph".toList ++ rest) : isSkipped line = false := by
  rw [isSkipped, h]
  rfl

theorem lineStatements_subgraph {line rest : List Char} (hwhole : IsWhole line)
    (h : trim line = "subgraph".toList ++ rest) :
    lineStatements line = [trim line] := by
  rw [lineStatements, isSkipped_subgraph h, hwhole.pieces, trimmedPieces]
  simp [h]

theorem map_meaning_eq {texts outs : List (List Char)}
    (h : List.Forall₂ QuotedStatement texts outs) :
    outs.map meaning = texts.map meaning := by
  induction h with
  | nil => rfl
  | cons hquoted _ ih =>
      rw [List.map_cons, List.map_cons, hquoted.meaning_eq, ih]

/-- The statements of a faithful line keep their meaning. -/
theorem IsFaithful.map_meaning {line : List Char} (h : IsFaithful line)
    (hline : '\n' ∉ line) :
    (lineStatements (quoteTitle (quoteLabels line))).map meaning =
      (lineStatements line).map meaning := by
  rw [quoteTitle_eq]
  cases hout : retitled? (quoteLabels line) with
  | none => exact map_meaning_eq h.labels
  | some out =>
      -- A title that gets quotes has no bracket, and hence no label.
      rw [quoteLabels_of_retitled? hout] at hout
      obtain ⟨hgroup, hwhole, hwhole'⟩ := h.title out hout
      obtain ⟨gap, name, quoted, htrim, htrim', -⟩ := trim_retitled hout
      rw [Option.getD_some, lineStatements_subgraph hwhole htrim,
        lineStatements_subgraph hwhole' htrim', List.map_singleton,
        List.map_singleton, meaning_retitled hout hgroup hline]

theorem IsFaithful.closed_quoteTitle {line : List Char} (h : IsFaithful line) :
    Quote.closed.after (quoteTitle (quoteLabels line)) = .closed := by
  rw [quoteTitle_eq]
  cases hout : retitled? (quoteLabels line) with
  | none => exact h.closed_quoteLabels
  | some out =>
      rw [quoteLabels_of_retitled? hout] at hout
      exact (h.title out hout).2.2.closed

end Flowchart.Sanitize

namespace Flowchart.Diagram

open Text Sanitize Fragment Grammar

theorem statements_eq {text : List Char}
    (h : ∀ line ∈ lines (trim text), Quote.closed.after line = .closed) :
    statements text = (lines (trim text)).flatMap lineStatements := by
  rw [statements, map_text_ofText ((after_lines_trim_iff text).mp h),
    ← ignoresMargins_lineStatements.flatMap_lines_trim]

theorem lines_quotedText {text : List Char}
    (h : ∀ line ∈ lines (trim text), IsFaithful line) :
    lines (quotedText text) =
      (lines (trim text)).map fun line => quoteTitle (quoteLabels line) := by
  rw [quotedText, lines_quoteTitles,
    lines_quoteLabels fun line hline => (h line hline).closed_quoteLabels,
    List.map_map]
  rfl

theorem sanitize_eq_trim {text : List Char}
    (h : (Keyword.positions (trim text)).length ≤ 1) :
    sanitize text = trim (quotedText text) := by
  rw [Keyword.positions, List.length_map, Keyword.length_occurrences,
    ← countP_opensLine_quotedText] at h
  rw [sanitize, ← quotedText, firstDiagram_of_countP h]

theorem statements_sanitize {text : List Char}
    (hone : (Keyword.positions (trim text)).length ≤ 1)
    (hclosed : ∀ line ∈ lines (quotedText text),
      Quote.closed.after line = .closed) :
    statements (sanitize text) =
      (lines (quotedText text)).flatMap lineStatements := by
  have htrimmed := (isTrimmed_trim (quotedText text)).trim_eq
  rw [sanitize_eq_trim hone, statements_eq, htrimmed,
    ignoresMargins_lineStatements.flatMap_lines_trim]
  rw [htrimmed]
  exact (after_lines_trim_iff _).mpr hclosed

theorem map_meaning_statements_sanitize {text : List Char}
    (hone : (Keyword.positions (trim text)).length ≤ 1)
    (hlines : ∀ line ∈ lines (trim text), IsFaithful line) :
    (statements (sanitize text)).map Grammar.meaning =
      (statements text).map Grammar.meaning := by
  have hclosed : ∀ line ∈ lines (quotedText text),
      Quote.closed.after line = .closed := by
    rw [lines_quotedText hlines]
    intro line hline
    obtain ⟨other, hother, rfl⟩ := List.mem_map.mp hline
    exact (hlines other hother).closed_quoteTitle
  rw [statements_sanitize hone hclosed, lines_quotedText hlines,
    statements_eq fun line hline => (hlines line hline).closed,
    List.flatMap_map, List.map_flatMap, List.map_flatMap]
  apply List.flatMap_congr
  intro line hline
  exact (hlines line hline).map_meaning (Keyword.not_mem_of_mem_lines hline)

/-- Sanitizing a text of one diagram at most does not change what it means,
whatever is remarked on it, if the rules for labels and titles agree with the
grammar on every line. -/
theorem parse_sanitize (text : List Char)
    (hone : (Keyword.positions (trim text)).length ≤ 1)
    (hlines : ∀ line ∈ lines (trim text), IsFaithful line) :
    (parse (sanitize text)).diagram = (parse text).diagram := by
  have hmeaning := map_meaning_statements_sanitize hone hlines
  apply diagram_parse_congr
  · have hhead := congrArg List.head? hmeaning
    rw [List.head?_map, List.head?_map] at hhead
    have hheader := congrArg (Option.bind · Prod.snd) hhead
    simpa [Option.bind_map, Function.comp_def, Grammar.meaning] using hheader
  · have htail := congrArg (fun meanings => meanings.tail.map Prod.fst) hmeaning
    simpa [← List.map_tail, Function.comp_def, Grammar.meaning] using htail

theorem parse_sanitize_group_and_label :
    let text :=
      "graph TD\nsubgraph One (first)\nA --> B[f(x)]\nend".toList
    (Keyword.positions (trim text)).length ≤ 1 ∧
      (∀ line ∈ lines (trim text), IsFaithful line) ∧
      sanitize text ≠ text ∧
      (parse (sanitize text)).diagram = (parse text).diagram := by
  intro text
  have hone : (Keyword.positions (trim text)).length ≤ 1 := by decide +kernel
  have hlines : lines (trim text) =
      ["graph TD".toList, "subgraph One (first)".toList,
        "A --> B[f(x)]".toList, "end".toList] := by decide +kernel
  have hheader : IsFaithful "graph TD".toList :=
    isFaithful_of_eq (by decide) (by decide +kernel) (by decide +kernel)
  have hgroup : IsFaithful "subgraph One (first)".toList := by
    apply isFaithful_of_quoteLabels_eq (by decide) (by decide +kernel)
    intro out hout
    have htitle : retitled? "subgraph One (first)".toList =
        some "subgraph \"One (first)\"".toList := by decide +kernel
    rw [htitle] at hout
    rw [← Option.some.inj hout]
    exact ⟨by decide +kernel, ⟨by decide, by decide⟩, ⟨by decide, by decide⟩⟩
  have hchain : IsFaithful "A --> B[f(x)]".toList := by
    have hlabels : quoteLabels "A --> B[f(x)]".toList =
        "A --> B[\"f(x)\"]".toList := by decide +kernel
    have hbare : lineStatements "A --> B[f(x)]".toList =
        ["A --> B[f(x)]".toList] := by decide +kernel
    have hquoted : lineStatements "A --> B[\"f(x)\"]".toList =
        ["A --> B[\"f(x)\"]".toList] := by decide +kernel
    have htitle : retitled? "A --> B[f(x)]".toList = none := by decide +kernel
    have hfirst : IsName "A".toList := rfl
    have hsecond : IsName "B".toList := rfl
    have hbody : IsLabelBody "f(x)".toList :=
      ⟨by decide, by decide, by decide, by decide⟩
    have hquotedChain : QuotedChain "A --> B[f(x)]".toList
        "A --> B[\"f(x)\"]".toList :=
      .node (isLead_arrow hfirst) rfl (.last hsecond hbody [])
    refine ⟨by decide, by rw [hlabels]; decide, ?_, ?_⟩
    · rw [hlabels, hbare, hquoted]
      exact .cons (.chain hquotedChain (by decide) (by decide +kernel)
        (by decide)) .nil
    · rw [htitle]
      simp
  have hend : IsFaithful "end".toList :=
    isFaithful_of_eq (by decide) (by decide +kernel) (by decide +kernel)
  have hfaithful : ∀ line ∈ lines (trim text), IsFaithful line := by
    rw [hlines]
    simp only [List.forall_mem_cons, List.not_mem_nil, false_implies,
      implies_true, and_true]
    exact ⟨hheader, hgroup, hchain, hend⟩
  exact ⟨hone, hfaithful, by decide +kernel, parse_sanitize text hone hfaithful⟩

/-- A blank in front of the quotes makes the rule for labels take a quoted label
for a bare one. -/
theorem parse_sanitize_ne :
    ¬ ∀ text : List Char, (Keyword.positions text).length ≤ 1 →
      (parse text).findings = [] →
        (parse (Sanitize.sanitize text)).diagram = (parse text).diagram := by
  intro h
  exact absurd
    (h "graph TD\nA[ \"x\"]".toList (by decide +kernel) (by decide +kernel))
    (by decide +kernel)

end Flowchart.Diagram
