import Flowchart.Proofs.LabelQuoting
import Flowchart.Proofs.OpeningLines
import Flowchart.Proofs.Quotes
import Flowchart.Proofs.TitleQuoting

/-!
# Sanitizing twice

What sanitizing leaves is trimmed, opens one diagram at most, and has no title
that calls for quotes.  The rule for labels changes none of this, so that it is
the only one that may still find something to do in sanitized text: a title
that has got its quotes may turn the text below it from quoted to bare.
-/

namespace Flowchart.Sanitize

open Text Keyword

/-- Nothing is left to do for the rules other than the one for labels. -/
structure IsSettled (text : List Char) : Prop where
  trimmed : IsTrimmed text
  titles : ∀ line ∈ lines text, retitled? line = none
  diagrams : (lines text).countP opensLine ≤ 1

theorem firstDiagram_of_countP {text : List Char}
    (h : (lines text).countP opensLine ≤ 1) : firstDiagram text = text := by
  rw [← length_occurrences] at h
  rw [firstDiagram]
  split
  next heq =>
    rw [heq] at h
    simp at h
  next => rfl

theorem quoteTitles_of_none {text : List Char}
    (h : ∀ line ∈ lines text, retitled? line = none) :
    quoteTitles text = text := by
  have hmap : (lines text).map quoteTitle = lines text := by
    conv_rhs => rw [← List.map_id (lines text)]
    exact List.map_congr_left fun line hline => quoteTitle_of_none (h line hline)
  rw [quoteTitles, hmap]
  exact List.intercalate_splitOn '\n'

/-- The first of two diagrams: its first line without indentation, and all
lines up to the next keyword. -/
theorem firstDiagram_of_two {text line next : List Char}
    {above inner below : List (List Char)}
    (hlines : lines text = above ++ line :: (inner ++ next :: below))
    (habove : ∀ line ∈ above, opensLine line = false)
    (hline : opensLine line = true)
    (hinner : ∀ line ∈ inner, opensLine line = false)
    (hnext : opensLine next = true) :
    firstDiagram text = ['\n'].intercalate
      (line.dropWhile isBlank :: (inner ++ [next.takeWhile isBlank])) := by
  obtain ⟨⟨keyword, rest⟩, hopening⟩ := Option.isSome_iff_exists.mp hline
  obtain ⟨⟨keyword', rest'⟩, hopening'⟩ := Option.isSome_iff_exists.mp hnext
  let before := preceding above
  have hoccurrences : ∃ after after' later, occurrences text =
      ⟨before ++ line.takeWhile isBlank, keyword, after⟩ ::
        ⟨before ++ line ++ ['\n'] ++ preceding inner ++ next.takeWhile isBlank,
          keyword', after'⟩ :: later := by
    rw [occurrences, hlines, inLines_append habove, inLines, inLines_append hinner,
      inLines, inLine?, inLine?, hopening, hopening']
    exact ⟨_, _, _, rfl⟩
  obtain ⟨after, after', later, hoccurrences⟩ := hoccurrences
  rw [firstDiagram, hoccurrences]
  have hsplit : line.takeWhile isBlank ++ line.dropWhile isBlank = line :=
    List.takeWhile_append_dropWhile
  have hbefore : before ++ line ++ ['\n'] ++ preceding inner ++
      next.takeWhile isBlank =
        before ++ line.takeWhile isBlank ++ (line.dropWhile isBlank ++
          '\n' :: (preceding inner ++ next.takeWhile isBlank)) := by
    rw [List.append_assoc before (line.takeWhile isBlank),
      ← List.append_assoc (line.takeWhile isBlank), hsplit]
    simp
  have hresult : ['\n'].intercalate
      (line.dropWhile isBlank :: (inner ++ [next.takeWhile isBlank])) =
        line.dropWhile isBlank ++
          '\n' :: (preceding inner ++ next.takeWhile isBlank) := by
    have := intercalate_append_eq (line.dropWhile isBlank :: inner)
      (next.takeWhile isBlank) []
    rw [List.cons_append] at this
    rw [this]
    simp [preceding, following]
  rw [hresult]
  simp only
  rw [hbefore, List.drop_left]

theorem lines_firstDiagram_of_two {text line next : List Char}
    {above inner below : List (List Char)}
    (hlines : lines text = above ++ line :: (inner ++ next :: below))
    (habove : ∀ line ∈ above, opensLine line = false)
    (hline : opensLine line = true)
    (hinner : ∀ line ∈ inner, opensLine line = false)
    (hnext : opensLine next = true) :
    lines (firstDiagram text) =
      line.dropWhile isBlank :: (inner ++ [next.takeWhile isBlank]) := by
  have hbreaks : ∀ other ∈ lines text, '\n' ∉ other :=
    fun other => not_mem_of_mem_lines
  rw [hlines] at hbreaks
  rw [firstDiagram_of_two hlines habove hline hinner hnext, lines,
    List.splitOn_intercalate '\n' _ (by simp)]
  intro other hother hbreak
  simp only [List.mem_cons, List.mem_append, List.not_mem_nil, or_false]
    at hother
  rcases hother with rfl | hother | rfl
  · exact hbreaks line (by simp) ((List.dropWhile_sublist _).subset hbreak)
  · exact hbreaks other (by simp [hother]) hbreak
  · exact absurd (List.mem_takeWhile_imp hbreak) (by decide)

/-- Lines in which more than one diagram opens, cut where the first two do. -/
theorem exists_first_two_openings {lines : List (List Char)}
    (h : 1 < lines.countP opensLine) :
    ∃ above line inner next below,
      lines = above ++ line :: (inner ++ next :: below) ∧
        (∀ line ∈ above, opensLine line = false) ∧ opensLine line = true ∧
        (∀ line ∈ inner, opensLine line = false) ∧ opensLine next = true := by
  obtain ⟨above, line, rest, rfl, habove, hline⟩ :=
    exists_first_opensLine (Nat.zero_lt_of_lt h)
  have hrest : 0 < rest.countP opensLine := by
    have hnone : above.countP opensLine = 0 :=
      List.countP_eq_zero.mpr (by simpa using habove)
    rw [List.countP_append, List.countP_cons, hnone, if_pos hline] at h
    omega
  obtain ⟨inner, next, below, rfl, hinner, hnext⟩ := exists_first_opensLine hrest
  exact ⟨above, line, inner, next, below, rfl, habove, hline, hinner, hnext⟩

/-- The text holds one diagram at most, or the first one opens with its keyword
and ends before the next one.  Its lines are lines of the text, up to
indentation, or blank. -/
theorem firstDiagram_cases (text : List Char) :
    (lines text).countP opensLine ≤ 1 ∧ firstDiagram text = text ∨
      (∃ keyword ∈ all, ∃ rest, firstDiagram text = keyword ++ rest) ∧
        (lines (firstDiagram text)).countP opensLine ≤ 1 ∧
        ∀ line ∈ lines (firstDiagram text), (∀ c ∈ line, isBlank c = true) ∨
          ∃ before, (∀ c ∈ before, isBlank c = true) ∧
            before ++ line ∈ lines text := by
  by_cases hone : (lines text).countP opensLine ≤ 1
  · exact .inl ⟨hone, firstDiagram_of_countP hone⟩
  · right
    obtain ⟨above, line, inner, next, below, hlines, habove, hline, hinner,
      hnext⟩ := exists_first_two_openings (Nat.lt_of_not_le hone)
    have hfirst := firstDiagram_of_two hlines habove hline hinner hnext
    have hresult := lines_firstDiagram_of_two hlines habove hline hinner hnext
    have hblank : ∀ c ∈ next.takeWhile isBlank, isBlank c = true :=
      fun c hc => List.mem_takeWhile_imp hc
    -- Of the lines that the first diagram keeps only its own opens one: what
    -- is left of the line with the next keyword is indentation.
    refine ⟨?_, ?_, ?_⟩
    · obtain ⟨⟨keyword, tail⟩, hopening⟩ := Option.isSome_iff_exists.mp hline
      obtain ⟨hmem, hstart, -⟩ := opening?_eq_some_iff.mp hopening
      refine ⟨keyword, hmem, tail ++ following (inner ++ [next.takeWhile isBlank]),
        ?_⟩
      rw [hfirst, intercalate_cons_eq, hstart, List.append_assoc]
    · have hnone : inner.countP opensLine = 0 :=
        List.countP_eq_zero.mpr (by simpa using hinner)
      have hend : opensLine (next.takeWhile isBlank) = false :=
        opensLine_of_isWhiteSpace fun c hc => isWhiteSpace_of_isBlank (hblank c hc)
      rw [hresult, List.countP_cons, List.countP_append, hnone,
        opensLine_dropWhile, if_pos hline, List.countP_singleton, hend]
      simp
    · intro other hother
      rw [hresult] at hother
      simp only [List.mem_cons, List.mem_append, List.not_mem_nil, or_false]
        at hother
      rcases hother with rfl | hother | rfl
      · refine .inr ⟨line.takeWhile isBlank,
          fun c hc => List.mem_takeWhile_imp hc, ?_⟩
        rw [List.takeWhile_append_dropWhile, hlines]
        simp
      · exact .inr ⟨[], by simp, by rw [hlines]; simp [hother]⟩
      · exact .inl hblank

/-! ### What sanitizing leaves -/

theorem head?_quoteTitle (line : List Char) :
    (quoteTitle line).head? = line.head? := by
  rw [quoteTitle_eq]
  cases hout : retitled? line with
  | none => rfl
  | some out =>
      obtain ⟨start, name, quoted, htitle, -, rfl⟩ := retitled?_eq_some hout
      obtain ⟨hstart, -, -, tail, rfl, -⟩ := titleOf?_eq_some_iff.mp htitle
      obtain ⟨indent, gap, rfl, -⟩ := hstart
      cases indent <;> rfl

theorem lines_quoteTitles (text : List Char) :
    lines (quoteTitles text) = (lines text).map quoteTitle := by
  rw [quoteTitles, lines, List.splitOn_intercalate '\n']
  · intro line hline
    obtain ⟨other, hother, rfl⟩ := List.mem_map.mp hline
    exact not_mem_quoteTitle (not_mem_of_mem_lines hother)
  · simp [lines, List.splitOn_ne_nil]

theorem head?_quoteTitles (text : List Char) :
    (quoteTitles text).head? = text.head? := by
  obtain ⟨first, below, htext⟩ :=
    List.exists_cons_of_ne_nil (List.splitOn_ne_nil '\n' text)
  have hwhole : text = first ++ following below := by
    rw [← intercalate_cons_eq, ← htext]
    exact (List.intercalate_splitOn '\n').symm
  have hout : quoteTitles text =
      quoteTitle first ++ following (below.map quoteTitle) := by
    rw [quoteTitles, lines, htext, List.map_cons, intercalate_cons_eq]
  have hbelow : (following (below.map quoteTitle)).head? =
      (following below).head? := by
    cases below <;> rfl
  conv_rhs => rw [hwhole]
  rw [hout, List.head?_append, List.head?_append, head?_quoteTitle, hbelow]

/-- A line of a text without the white space behind it is a line of the text,
up to white space at its end. -/
theorem mem_lines_of_append {text tail line : List Char}
    (htail : ∀ c ∈ tail, isWhiteSpace c = true) (h : line ∈ lines text) :
    ∃ more, (∀ c ∈ more, isWhiteSpace c = true) ∧
      line ++ more ∈ lines (text ++ tail) := by
  obtain ⟨above, last, first, below, hlines, hmore, hwhole⟩ :=
    lines_append text tail
  rw [hlines, List.mem_append, List.mem_singleton] at h
  rw [hwhole]
  rcases h with h | rfl
  · exact ⟨[], by simp, by simp [h]⟩
  · refine ⟨first, fun c hc => htail c ?_, by simp⟩
    exact mem_of_mem_lines (hmore ▸ List.mem_cons_self) hc

theorem countP_opensLine_append {tail : List Char}
    (htail : ∀ c ∈ tail, isWhiteSpace c = true) (text : List Char) :
    (lines text).countP opensLine ≤ (lines (text ++ tail)).countP opensLine := by
  obtain ⟨above, last, first, below, hlines, hmore, hwhole⟩ :=
    lines_append text tail
  have hfirst : ∀ c ∈ first, isWhiteSpace c = true :=
    fun c hc => htail c (mem_of_mem_lines (hmore ▸ List.mem_cons_self) hc)
  rw [hlines, hwhole, List.countP_append, List.countP_append, List.countP_cons,
    List.countP_cons, opensLine_append_isWhiteSpace hfirst, List.countP_nil]
  omega

/-- The text in which the first diagram is looked for. -/
def quotedText (text : List Char) : List Char :=
  quoteTitles (quoteLabels (trim text))

theorem exists_eq_sanitize_append (text : List Char) :
    ∃ tail, firstDiagram (quotedText text) = sanitize text ++ tail ∧
      ∀ c ∈ tail, isWhiteSpace c = true := by
  let first := firstDiagram (quotedText text)
  have hhead : ∀ c ∈ first.head?, isWhiteSpace c = false := by
    rcases firstDiagram_cases (quotedText text) with
      ⟨-, hsame⟩ | ⟨⟨keyword, hmem, rest, hstart⟩, -⟩
    · rw [show first = quotedText text from hsame, quotedText,
        head?_quoteTitles, quoteLabels, (quoting _ _ _).head?_eq]
      exact (isTrimmed_trim text).head
    · obtain ⟨c, letters, rfl, hc⟩ := exists_cons_of_mem hmem
      rw [show first = c :: letters ++ rest from hstart]
      rintro d ⟨rfl⟩
      exact hc
  have htrim : sanitize text = trimEnd first := by
    have hstart : trimStart first = first := by
      cases heq : first with
      | nil => rfl
      | cons c rest => exact trimStart_eq_self (hhead c (by rw [heq]; rfl)) rest
    change trimEnd (trimStart first) = trimEnd first
    rw [hstart]
  rw [htrim]
  exact exists_eq_dropWhileEnd_append isWhiteSpace first

/-- A line that sanitizing leaves is a line of the quoted text, up to white
space around it, or blank. -/
theorem mem_lines_sanitize {text line : List Char}
    (h : line ∈ lines (sanitize text)) :
    (∀ c ∈ line, isWhiteSpace c = true) ∨
      ∃ before after, (∀ c ∈ before, isBlank c = true) ∧
        (∀ c ∈ after, isWhiteSpace c = true) ∧
        before ++ (line ++ after) ∈ lines (quotedText text) := by
  obtain ⟨tail, hfirst, htail⟩ := exists_eq_sanitize_append text
  obtain ⟨after, hafter, hline⟩ := mem_lines_of_append htail h
  rw [← hfirst] at hline
  rcases firstDiagram_cases (quotedText text) with
    ⟨-, hsame⟩ | ⟨-, -, hlines⟩
  · rw [hsame] at hline
    exact .inr ⟨[], after, by simp, hafter, hline⟩
  · rcases hlines _ hline with hblank | ⟨before, hbefore, hmem⟩
    · refine .inl fun c hc => isWhiteSpace_of_isBlank (hblank c ?_)
      exact List.mem_append_left after hc
    · exact .inr ⟨before, after, hbefore, hafter, hmem⟩

theorem isSettled_sanitize (text : List Char) : IsSettled (sanitize text) := by
  refine ⟨isTrimmed_trim _, ?_, ?_⟩
  · intro line hline
    rcases mem_lines_sanitize hline with
      hwhite | ⟨before, after, hbefore, hafter, hmem⟩
    · rw [← List.nil_append line, retitled?_append hwhite]
      rfl
    · rw [quotedText, lines_quoteTitles] at hmem
      obtain ⟨other, -, hother⟩ := List.mem_map.mp hmem
      have hnone := retitled?_quoteTitle other
      have hindent := fun c hc => isWhiteSpace_of_isBlank (hbefore c hc)
      rw [hother, retitled?_append_left hindent, retitled?_append hafter] at hnone
      simpa using hnone
  · obtain ⟨tail, hfirst, htail⟩ := exists_eq_sanitize_append text
    refine (countP_opensLine_append htail _).trans ?_
    rw [← hfirst]
    rcases firstDiagram_cases (quotedText text) with
      ⟨hcount, hsame⟩ | ⟨-, hcount, -⟩
    · rw [hsame]
      exact hcount
    · exact hcount

theorem AgreeToBracket.opensLine_eq {line other : List Char}
    (h : AgreeToBracket line other) : opensLine other = opensLine line := by
  cases h with
  | same => rfl
  | bracket start rest more => exact opensLine_bracket start more rest

theorem AgreeToBracket.retitled?_eq_none {line other : List Char}
    (h : AgreeToBracket line other) (hline : retitled? line = none) :
    retitled? other = none := by
  cases h with
  | same => exact hline
  | bracket => exact retitled?_of_mem (by simp)

theorem countP_opensLine_of_agree {lines others : List (List Char)}
    (h : List.Forall₂ AgreeToBracket lines others) :
    others.countP opensLine = lines.countP opensLine := by
  induction h with
  | nil => rfl
  | cons hline _ ih =>
      rw [List.countP_cons, List.countP_cons, ih, hline.opensLine_eq]

theorem retitled?_of_agree {lines others : List (List Char)}
    (h : List.Forall₂ AgreeToBracket lines others)
    (hnone : ∀ line ∈ lines, retitled? line = none) :
    ∀ line ∈ others, retitled? line = none := by
  induction h with
  | nil => simp
  | cons hline _ ih =>
      rw [List.forall_mem_cons] at hnone ⊢
      exact ⟨hline.retitled?_eq_none hnone.1, ih hnone.2⟩

theorem not_opensLine_of_isTitleStart {start : List Char}
    (h : IsTitleStart start) (title : List Char) : opensLine (start ++ title) = false := by
  obtain ⟨indent, gap, rfl, hindent, -, -⟩ := h
  have hword : ∀ keyword ∈ all, ¬ keyword <+: "subgraph".toList ∧
      ¬ "subgraph".toList <+: keyword := by decide
  rw [List.append_assoc, List.append_assoc, Bool.eq_false_iff]
  intro hopens
  obtain ⟨⟨keyword, rest⟩, hopening⟩ := Option.isSome_iff_exists.mp hopens
  obtain ⟨hmem, hline, -⟩ := opening?_eq_some_iff.mp hopening
  rw [List.dropWhile_append] at hline
  split at hline
  next =>
    rcases List.prefix_or_prefix_of_prefix
      (List.prefix_append "subgraph".toList (gap ++ title))
      (⟨rest, hline.symm⟩ : keyword <+: _) with hprefix | hprefix
    · exact (hword keyword hmem).2 hprefix
    · exact (hword keyword hmem).1 hprefix
  next hindented =>
    -- White space that is no blank stands where the keyword would have to.
    obtain ⟨c, letters, rfl, hc⟩ := exists_cons_of_mem hmem
    obtain ⟨d, more, hmore⟩ :=
      List.exists_cons_of_ne_nil (mt List.isEmpty_iff.mpr hindented)
    rw [hmore] at hline
    obtain rfl : d = c := (List.cons.inj hline).1
    have hd := hindent d ((List.dropWhile_sublist _).subset (by
      rw [hmore]
      exact List.mem_cons_self))
    rw [hc] at hd
    exact Bool.noConfusion hd

theorem opensLine_quoteTitle (line : List Char) :
    opensLine (quoteTitle line) = opensLine line := by
  rw [quoteTitle_eq]
  cases hout : retitled? line with
  | none => rfl
  | some out =>
      obtain ⟨start, name, quoted, htitle, -, rfl⟩ := retitled?_eq_some hout
      obtain ⟨hstart, -, -, tail, rfl, -⟩ := titleOf?_eq_some_iff.mp htitle
      rw [Option.getD_some, not_opensLine_of_isTitleStart hstart,
        not_opensLine_of_isTitleStart hstart]

theorem countP_opensLine_quotedText (text : List Char) :
    (lines (quotedText text)).countP opensLine =
      (lines (trim text)).countP opensLine := by
  have hquoting := (quoting .closed none (trim text)).lines
  have hsame : opensLine ∘ quoteTitle = opensLine :=
    funext opensLine_quoteTitle
  rw [quotedText, lines_quoteTitles, List.countP_map, hsame]
  exact countP_opensLine_of_agree hquoting

/-- The rule for labels keeps what the other rules have settled. -/
theorem IsSettled.quoteLabels {text : List Char} (h : IsSettled text) :
    IsSettled (quoteLabels text) := by
  have hquoting := quoting .closed none text
  have hlines := hquoting.lines
  refine ⟨⟨?_, ?_⟩, ?_, ?_⟩
  · rw [Sanitize.quoteLabels, hquoting.head?_eq]
    exact h.trimmed.head
  · rw [Sanitize.quoteLabels, hquoting.getLast?_eq]
    exact h.trimmed.last
  · exact retitled?_of_agree hlines h.titles
  · rw [Sanitize.quoteLabels, countP_opensLine_of_agree hlines]
    exact h.diagrams

theorem IsSettled.sanitize_eq {text : List Char} (h : IsSettled text) :
    sanitize text = Sanitize.quoteLabels text := by
  have hquoted := h.quoteLabels
  rw [sanitize, h.trimmed.trim_eq, quoteTitles_of_none hquoted.titles,
    firstDiagram_of_countP hquoted.diagrams, hquoted.trimmed.trim_eq]

/-! ### Text that is settled at once -/

/-- The line has no label to quote and leaves no quote open. -/
structure IsSteady (line : List Char) : Prop where
  quiet : IsQuiet .closed none line
  closed : Quote.closed.after line = .closed

/-- No line leaves a quote open, neither before nor after titles are quoted. -/
def ClosesQuotes (text : List Char) : Prop :=
  ∀ line ∈ lines (quoteLabels (trim text)),
    Quote.closed.after line = .closed ∧
      Quote.closed.after (quoteTitle line) = .closed

instance (text : List Char) : Decidable (ClosesQuotes text) :=
  inferInstanceAs (Decidable (∀ line ∈ _, _ ∧ _))

theorem isQuiet_of_not_mem {quote : Quote} {previous : Option Char}
    {text : List Char} (h : '[' ∉ text) : IsQuiet quote previous text := by
  induction text generalizing quote previous with
  | nil => trivial
  | cons c text ih =>
      rw [List.mem_cons, not_or] at h
      exact ⟨fun _ hc => absurd hc.symm h.1, ih h.2⟩

namespace IsSteady

theorem of_isWhiteSpace {line : List Char}
    (h : ∀ c ∈ line, isWhiteSpace c = true) : IsSteady line := by
  refine ⟨isQuiet_of_not_mem fun hmem => ?_, after_isWhiteSpace h (by simp)⟩
  exact absurd (h _ hmem) (by decide)

theorem of_append {line after : List Char}
    (hafter : ∀ c ∈ after, isWhiteSpace c = true)
    (h : IsSteady (line ++ after)) : IsSteady line :=
  ⟨h.quiet.of_append, (after_append_eq_closed_iff hafter).mp h.closed⟩

theorem of_append_left {before line : List Char}
    (hbefore : ∀ c ∈ before, isBlank c = true)
    (h : IsSteady (before ++ line)) : IsSteady line := by
  have hstate : Quote.closed.after before = .closed :=
    after_isWhiteSpace (fun c hc => isWhiteSpace_of_isBlank (hbefore c hc))
      (by simp)
  constructor
  · have hquiet := h.quiet.append_right
    rw [hstate] at hquiet
    refine (isQuiet_congr ?_).mp hquiet
    rw [Option.or_none]
    cases hlast : before.getLast? with
    | none => rfl
    | some c =>
        have hblank := hbefore c (List.mem_of_getLast? hlast)
        rcases Bool.or_eq_true_iff.mp hblank with hc | hc <;>
          rw [beq_iff_eq.mp hc] <;> decide
  · have hclosed := h.closed
    rwa [Quote.after_append, hstate] at hclosed

end IsSteady

theorem isSteady_of_mem_quotedText {text line : List Char}
    (h : ClosesQuotes text) (hline : line ∈ lines (quotedText text)) :
    IsSteady line := by
  rw [quotedText, lines_quoteTitles] at hline
  obtain ⟨other, hother, rfl⟩ := List.mem_map.mp hline
  refine ⟨?_, (h other hother).2⟩
  have hquiet : IsQuiet .closed none other := by
    have hall := (isQuiet_intercalate_iff fun line hline => (h line hline).1).mp
    have hwhole : ['\n'].intercalate (lines (quoteLabels (trim text))) =
        quoteLabels (trim text) := List.intercalate_splitOn '\n'
    rw [hwhole] at hall
    exact hall (quoting .closed none (trim text)).isQuiet other hother
  rw [quoteTitle_eq]
  cases hout : retitled? other with
  | none => exact hquiet
  | some out =>
      have hplain : '[' ∉ other := fun hmem => by
        rw [retitled?_of_mem hmem] at hout
        exact absurd hout (by simp)
      obtain ⟨start, name, quoted, htitle, hquoted, rfl⟩ := retitled?_eq_some hout
      obtain ⟨-, -, -, tail, rfl, -⟩ := titleOf?_eq_some_iff.mp htitle
      apply isQuiet_of_not_mem
      rw [Option.getD_some, List.mem_append]
      rintro (hmem | hmem)
      · exact hplain (List.mem_append_left _ hmem)
      · rcases mem_quotedName hquoted hmem with hname | hadded
        · exact hplain (by simp [hname])
        · exact absurd hadded (by decide)

theorem sanitize_of_closesQuotes {text : List Char} (h : ClosesQuotes text) :
    sanitize (sanitize text) = sanitize text := by
  have hsteady : ∀ line ∈ lines (sanitize text), IsSteady line := by
    intro line hline
    rcases mem_lines_sanitize hline with
      hwhite | ⟨before, after, hbefore, hafter, hmem⟩
    · exact .of_isWhiteSpace hwhite
    · exact .of_append hafter
        (.of_append_left hbefore (isSteady_of_mem_quotedText h hmem))
  have hquiet := (isQuiet_intercalate_iff
    fun line hline => (hsteady line hline).closed).mpr
      fun line hline => (hsteady line hline).quiet
  have hwhole : ['\n'].intercalate (lines (sanitize text)) = sanitize text :=
    List.intercalate_splitOn '\n'
  rw [hwhole] at hquiet
  rw [(isSettled_sanitize text).sanitize_eq]
  exact quoteLabelsFrom_eq_self_iff.mpr hquiet

/-- Sanitizing a second time is the rule for labels alone, and a third time
changes nothing.  The second time changes nothing either if no line leaves a
quote open. -/
theorem sanitize_sanitize (text : List Char) :
    sanitize (sanitize text) = quoteLabels (sanitize text) ∧
      sanitize (sanitize (sanitize text)) = sanitize (sanitize text) ∧
      (ClosesQuotes text → sanitize (sanitize text) = sanitize text) := by
  have hsettled := isSettled_sanitize text
  have hsecond := hsettled.sanitize_eq
  refine ⟨hsecond, ?_, sanitize_of_closesQuotes⟩
  have hthird := hsettled.quoteLabels.sanitize_eq
  rw [hsecond, hthird]
  exact quoteLabelsFrom_eq_self_iff.mpr
    (quoting .closed none (sanitize text)).isQuiet

theorem sanitize_sanitize_two_diagrams :
    let text :=
      "\ngraph TD\nA[b(c)] --> B\nsubgraph x (y)\nend\ngraph LR".toList
    ClosesQuotes text ∧ sanitize (sanitize text) = sanitize text := by
  intro text
  have hcloses : ClosesQuotes text := by decide +kernel
  exact ⟨hcloses, (sanitize_sanitize text).2.2 hcloses⟩

/-- The quote in the title hides the label below it only as long as the title
has no quotes of its own. -/
theorem sanitize_sanitize_ne :
    ¬ ∀ text : List Char, sanitize (sanitize text) = sanitize text := by
  intro h
  exact absurd (h "graph TD\nsubgraph a \"b\nX[c(d)]\nend".toList)
    (by decide +kernel)

end Flowchart.Sanitize
