import Flowchart.Proofs.Keywords
import Flowchart.Proofs.Quotes
import Flowchart.Proofs.Trimming
import Flowchart.Statement.Fragment

/-!
# The statements of a line

Where no line leaves a quote open, the statements of a text are those of its
lines, and white space around a line or around the whole text does not matter.
-/

namespace Flowchart.Fragment

open Text

/-! ### Pieces -/

/-- The brackets that are open behind one more character. -/
def depthAfter (quote : Quote) (depth : Nat) (c : Char) : Nat :=
  if quote ≠ .closed then depth
  else if c = '(' ∨ c = '[' ∨ c = '{' then depth + 1
  else if c = ')' ∨ c = ']' ∨ c = '}' then depth - 1
  else depth

theorem pieces_ne_nil (quote : Quote) (depth : Nat) (text : List Char) :
    pieces quote depth text ≠ [] := by
  cases text with
  | nil => simp [pieces]
  | cons c rest =>
      rw [pieces]
      split
      · simp
      · simp only
        split <;> simp

theorem pieces_cons {quote : Quote} {depth : Nat} {c : Char}
    (h : ¬ (quote = .closed ∧ c = ';' ∧ depth = 0)) (rest : List Char) :
    pieces quote depth (c :: rest) =
      (pieces (quote.step c) (depthAfter quote depth c) rest).modifyHead
        (c :: ·) := by
  rw [pieces, if_neg h]
  obtain ⟨first, others, hpieces⟩ := List.exists_cons_of_ne_nil
    (pieces_ne_nil (quote.step c) (depthAfter quote depth c) rest)
  rw [hpieces]
  simp only [depthAfter] at hpieces
  simp only [hpieces, List.modifyHead_cons]

theorem pieces_isWhiteSpace (quote : Quote) (depth : Nat) {text : List Char}
    (h : ∀ c ∈ text, isWhiteSpace c = true) :
    pieces quote depth text = [text] := by
  induction text generalizing quote depth with
  | nil => rfl
  | cons c rest ih =>
      rw [List.forall_mem_cons] at h
      rw [pieces_cons, ih _ _ h.2, List.modifyHead_cons]
      rintro ⟨-, rfl, -⟩
      exact absurd h.1 (by decide)

theorem pieces_append_isWhiteSpace (quote : Quote) (depth : Nat)
    (text : List Char) {tail : List Char}
    (h : ∀ c ∈ tail, isWhiteSpace c = true) :
    ∃ init last, pieces quote depth text = init ++ [last] ∧
      pieces quote depth (text ++ tail) = init ++ [last ++ tail] := by
  induction text generalizing quote depth with
  | nil => exact ⟨[], [], rfl, pieces_isWhiteSpace quote depth h⟩
  | cons c rest ih =>
      by_cases hsplit : quote = .closed ∧ c = ';' ∧ depth = 0
      · obtain ⟨init, last, hrest, hwhole⟩ := ih .closed 0
        refine ⟨[] :: init, last, ?_, ?_⟩
        · rw [pieces, if_pos hsplit, hrest, List.cons_append]
        · rw [List.cons_append, pieces, if_pos hsplit, hwhole,
            List.cons_append]
      · obtain ⟨init, last, hrest, hwhole⟩ :=
          ih (quote.step c) (depthAfter quote depth c)
        rw [List.cons_append, pieces_cons hsplit, pieces_cons hsplit, hrest,
          hwhole]
        cases init with
        | nil => exact ⟨[], c :: last, rfl, rfl⟩
        | cons first init => exact ⟨(c :: first) :: init, last, rfl, rfl⟩

theorem pieces_append_left {before : List Char}
    (h : ∀ c ∈ before, isWhiteSpace c = true) (text : List Char) :
    pieces .closed 0 (before ++ text) =
      (pieces .closed 0 text).modifyHead (before ++ ·) := by
  induction before with
  | nil =>
      obtain ⟨first, others, hpieces⟩ :=
        List.exists_cons_of_ne_nil (pieces_ne_nil .closed 0 text)
      rw [List.nil_append, hpieces]
      rfl
  | cons c before ih =>
      rw [List.forall_mem_cons] at h
      have hplain : ∀ d ∈ ['"', ';', '(', '[', '{', ')', ']', '}'], c ≠ d := by
        rintro d hd rfl
        have hnone : ['"', ';', '(', '[', '{', ')', ']', '}'].all
            (!isWhiteSpace ·) = true := by decide
        have hwhite := List.all_eq_true.mp hnone c hd
        rw [h.1] at hwhite
        exact Bool.noConfusion hwhite
      simp only [List.mem_cons, List.not_mem_nil, or_false, forall_eq_or_imp,
        forall_eq] at hplain
      rw [List.cons_append, pieces_cons (fun hsplit => hplain.2.1 hsplit.2.1)]
      have hquote : Quote.closed.step c = .closed := by
        simp [Quote.step, hplain]
      have hdepth : depthAfter .closed 0 c = 0 := by
        simp [depthAfter, hplain]
      rw [hquote, hdepth, ih h.2]
      cases pieces .closed 0 text <;> rfl

/-! ### Statements -/

/-- The texts of the statements in the pieces. -/
def trimmedPieces (pieces : List (List Char)) : List (List Char) :=
  (pieces.map trim).filter (!·.isEmpty)

/-- The texts of the statements of a line that closes its quotes. -/
def lineStatements (line : List Char) : List (List Char) :=
  if isSkipped line then [] else trimmedPieces (pieces .closed 0 line)

theorem map_text_ofPieces (offset : Nat) (pieces : List (List Char)) :
    (ofPieces offset pieces).map Fragment.text = trimmedPieces pieces := by
  induction pieces generalizing offset with
  | nil => rfl
  | cons piece others ih =>
      rw [ofPieces, List.map_append, ih, ofPiece?, trimmedPieces, trimmedPieces,
        List.map_cons, List.filter_cons]
      cases (trim piece).isEmpty <;> simp

theorem map_text_ofLines {lines : List Line}
    (h : ∀ line ∈ lines, Quote.closed.after line.content = .closed) :
    (ofLines lines).map Fragment.text =
      lines.flatMap fun line => lineStatements line.content := by
  induction lines with
  | nil =>
      rw [ofLines]
      rfl
  | cons line below ih =>
      rw [List.forall_mem_cons] at h
      rw [ofLines, List.flatMap_cons, lineStatements]
      split
      next hskipped => rw [List.nil_append, ih h.2]
      next hskipped =>
        dsimp only
        split
        next => rw [List.map_append, map_text_ofPieces, ih h.2]
        next hmore =>
          rw [if_pos h.1] at hmore
          exact absurd hmore (by simp)

theorem lineStatements_of_isWhiteSpace {line : List Char}
    (h : ∀ c ∈ line, isWhiteSpace c = true) : lineStatements line = [] := by
  have htrim : trim line = [] := by
    have := trim_append_isWhiteSpace [] h
    rwa [List.nil_append] at this
  rw [lineStatements, isSkipped, htrim, List.isEmpty_nil, Bool.true_or,
    if_pos rfl]

theorem lineStatements_append (line : List Char) {tail : List Char}
    (h : ∀ c ∈ tail, isWhiteSpace c = true) :
    lineStatements (line ++ tail) = lineStatements line := by
  obtain ⟨init, last, hline, hwhole⟩ :=
    pieces_append_isWhiteSpace .closed 0 line h
  rw [lineStatements, lineStatements, isSkipped, isSkipped,
    trim_append_isWhiteSpace line h, trimmedPieces, trimmedPieces, hline,
    hwhole, List.map_append, List.map_append, List.map_singleton,
    List.map_singleton, trim_append_isWhiteSpace last h]

theorem lineStatements_append_left {before : List Char}
    (h : ∀ c ∈ before, isWhiteSpace c = true) (line : List Char) :
    lineStatements (before ++ line) = lineStatements line := by
  obtain ⟨first, others, hpieces⟩ :=
    List.exists_cons_of_ne_nil (pieces_ne_nil .closed 0 line)
  rw [lineStatements, lineStatements, isSkipped, isSkipped,
    trim_append_of_isWhiteSpace line h, pieces_append_left h, hpieces,
    List.modifyHead_cons, trimmedPieces, trimmedPieces, List.map_cons,
    List.map_cons, trim_append_of_isWhiteSpace first h]

/-! ### Lines -/

theorem Line.content_append_ending (start : ℕ) (raw : List Char) :
    (Line.ofRaw start raw).content ++ (Line.ofRaw start raw).ending = raw :=
  List.prefix_iff_eq_append.mp (dropWhileEnd_isPrefix isLineBreak raw)

theorem lineStatements_dropWhileEnd (line : List Char) :
    lineStatements (dropWhileEnd isLineBreak line) = lineStatements line := by
  obtain ⟨tail, hline, htail⟩ := exists_eq_dropWhileEnd_append isLineBreak line
  conv_rhs => rw [hline]
  exact (lineStatements_append _ fun c hc =>
    isWhiteSpace_of_isLineBreak (htail c hc)).symm

theorem contents_placeLines (offset : Nat) (raws : List (List Char)) :
    (placeLines offset raws).map Line.content =
      raws.map (dropWhileEnd isLineBreak) := by
  induction raws generalizing offset with
  | nil => rfl
  | cons raw below ih =>
      rw [placeLines, List.map_cons, List.map_cons, ih]
      rfl

theorem flatMap_rawLines (lines : List (List Char)) :
    (rawLines lines).flatMap lineStatements = lines.flatMap lineStatements := by
  induction lines using rawLines.induct with
  | case1 => rfl
  | case2 last hempty =>
      rw [List.isEmpty_iff.mp hempty]
      rfl
  | case3 last hempty => rw [rawLines, if_neg hempty]
  | case4 line below hne ih =>
      rw [rawLines, List.flatMap_cons, List.flatMap_cons, ih,
        lineStatements_append line isWhiteSpace_newline]
      exact hne

theorem after_rawLines {lines : List (List Char)}
    (h : ∀ line ∈ lines, Quote.closed.after line = .closed) :
    ∀ raw ∈ rawLines lines, Quote.closed.after raw = .closed := by
  induction lines using rawLines.induct with
  | case1 => exact h
  | case2 last hempty => simp [rawLines, hempty]
  | case3 last hempty =>
      rw [rawLines, if_neg hempty]
      exact h
  | case4 line below hne ih =>
      rw [List.forall_mem_cons] at h
      rw [rawLines, List.forall_mem_cons]
      · exact ⟨(after_append_eq_closed_iff isWhiteSpace_newline).mpr h.1, ih h.2⟩
      · exact hne

/-- Where no line leaves a quote open, every line has its own statements. -/
theorem map_text_ofText {text : List Char}
    (h : ∀ line ∈ lines text, Quote.closed.after line = .closed) :
    (ofText text).map Fragment.text = (lines text).flatMap lineStatements := by
  have hcontents := contents_placeLines 0 (rawLines (lines text))
  have hclosed : ∀ line ∈ physicalLines text,
      Quote.closed.after line.content = .closed := by
    intro line hline
    have hmem := List.mem_map_of_mem (f := Line.content) hline
    rw [physicalLines, hcontents] at hmem
    obtain ⟨raw, hraw, hcontent⟩ := List.mem_map.mp hmem
    obtain ⟨tail, hsplit, htail⟩ :=
      exists_eq_dropWhileEnd_append isLineBreak raw
    have hafter := after_rawLines h raw hraw
    rw [hsplit, after_append_eq_closed_iff fun c hc =>
      isWhiteSpace_of_isLineBreak (htail c hc)] at hafter
    rwa [← hcontent]
  rw [ofText, map_text_ofLines hclosed, ← flatMap_rawLines, physicalLines,
    ← List.flatMap_map, hcontents, List.flatMap_map]
  simp only [lineStatements_dropWhileEnd]

/-! ### White space around the text -/

/-- What is read from a line does not depend on the white space around it, and
there is nothing in a blank line. -/
structure IgnoresMargins {α : Type} (read : List Char → List α) : Prop where
  blank : ∀ line, (∀ c ∈ line, isWhiteSpace c = true) → read line = []
  append : ∀ line tail, (∀ c ∈ tail, isWhiteSpace c = true) →
    read (line ++ tail) = read line
  append_left : ∀ before line, (∀ c ∈ before, isWhiteSpace c = true) →
    read (before ++ line) = read line

theorem ignoresMargins_lineStatements : IgnoresMargins lineStatements where
  blank _ h := lineStatements_of_isWhiteSpace h
  append line _ h := lineStatements_append line h
  append_left _ line h := lineStatements_append_left h line

namespace IgnoresMargins

variable {α : Type} {read : List Char → List α}

theorem flatMap_blank (hread : IgnoresMargins read) {lines : List (List Char)}
    (h : ∀ line ∈ lines, ∀ c ∈ line, isWhiteSpace c = true) :
    lines.flatMap read = [] := by
  rw [List.flatMap_eq_nil_iff]
  exact fun line hline => hread.blank line (h line hline)

theorem flatMap_lines_append (hread : IgnoresMargins read) (text : List Char)
    {tail : List Char} (h : ∀ c ∈ tail, isWhiteSpace c = true) :
    (lines (text ++ tail)).flatMap read = (lines text).flatMap read := by
  obtain ⟨above, last, first, below, htext, htail, hwhole⟩ :=
    Keyword.lines_append text tail
  have hwhite : ∀ line ∈ first :: below, ∀ c ∈ line, isWhiteSpace c = true := by
    intro line hline c hc
    rw [← htail] at hline
    exact h c (Keyword.mem_of_mem_lines hline hc)
  rw [List.forall_mem_cons] at hwhite
  rw [hwhole, htext, List.flatMap_append, List.flatMap_append,
    List.flatMap_cons, List.flatMap_singleton, hread.flatMap_blank hwhite.2,
    List.append_nil, hread.append last first hwhite.1]

theorem flatMap_lines_append_left (hread : IgnoresMargins read)
    {before : List Char} (h : ∀ c ∈ before, isWhiteSpace c = true)
    (text : List Char) :
    (lines (before ++ text)).flatMap read = (lines text).flatMap read := by
  obtain ⟨above, last, first, below, hbefore, htext, hwhole⟩ :=
    Keyword.lines_append before text
  have hwhite : ∀ line ∈ above ++ [last], ∀ c ∈ line,
      isWhiteSpace c = true := by
    intro line hline c hc
    rw [← hbefore] at hline
    exact h c (Keyword.mem_of_mem_lines hline hc)
  have hlast := hwhite last (by simp)
  have habove := hread.flatMap_blank fun line hline =>
    hwhite line (List.mem_append_left [last] hline)
  rw [hwhole, htext, List.flatMap_append, habove, List.nil_append,
    List.flatMap_cons, List.flatMap_cons, hread.append_left last first hlast]

theorem flatMap_lines_trim (hread : IgnoresMargins read) (text : List Char) :
    (lines (trim text)).flatMap read = (lines text).flatMap read := by
  obtain ⟨tail, htext, hwhite⟩ := exists_eq_trim text
  have hindent : ∀ c ∈ text.takeWhile isWhiteSpace, isWhiteSpace c = true :=
    fun c hc => List.mem_takeWhile_imp hc
  conv_rhs => rw [htext]
  rw [hread.flatMap_lines_append_left hindent,
    hread.flatMap_lines_append _ hwhite]

end IgnoresMargins

/-- One entry for a line that leaves a quote open. -/
def openQuote (line : List Char) : List Unit :=
  if Quote.closed.after line = .closed then [] else [()]

theorem ignoresMargins_openQuote : IgnoresMargins openQuote where
  blank _ h := if_pos (after_isWhiteSpace h (by simp))
  append _ _ h := by simp only [openQuote, after_append_eq_closed_iff h]
  append_left _ _ h := by simp only [openQuote, after_append_left h]

theorem flatMap_openQuote_eq_nil_iff {lines : List (List Char)} :
    lines.flatMap openQuote = [] ↔
      ∀ line ∈ lines, Quote.closed.after line = .closed := by
  simp [List.flatMap_eq_nil_iff, openQuote]

theorem after_lines_trim_iff (text : List Char) :
    (∀ line ∈ lines (trim text), Quote.closed.after line = .closed) ↔
      ∀ line ∈ lines text, Quote.closed.after line = .closed := by
  rw [← flatMap_openQuote_eq_nil_iff, ← flatMap_openQuote_eq_nil_iff,
    ignoresMargins_openQuote.flatMap_lines_trim]

end Flowchart.Fragment
