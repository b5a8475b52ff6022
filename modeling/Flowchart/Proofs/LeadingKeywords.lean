import Flowchart.Proofs.Sanitizing

/-!
# Text that opens a diagram at once

Where the first line of a text opens a diagram, sanitizing leaves a first line
that does so, whatever it does to the text below.  Without white space before
it the keyword is then found at the very start of the text.
-/

namespace Flowchart

open Text

namespace Keyword

/-- A diagram opens in the first line. -/
def opensFirst (text : List Char) : Bool :=
  (lines text).head?.any opensLine

theorem opensFirst_append {tail : List Char}
    (htail : ∀ c ∈ tail, isWhiteSpace c = true) (text : List Char) :
    opensFirst (text ++ tail) = opensFirst text := by
  obtain ⟨above, last, first, below, hlines, hmore, hwhole⟩ :=
    lines_append text tail
  have hfirst : ∀ c ∈ first, isWhiteSpace c = true :=
    fun c hc => htail c (mem_of_mem_lines (hmore ▸ List.mem_cons_self) hc)
  rw [opensFirst, opensFirst, hlines, hwhole]
  cases above with
  | nil => exact opensLine_append_isWhiteSpace hfirst last
  | cons => rfl

theorem opensFirst_onwards {text : List Char} {occurrence : Occurrence}
    (h : first? text = some occurrence) :
    opensFirst occurrence.onwards = true := by
  rcases first?_cases text with
    ⟨hnone, -⟩ | ⟨above, line, below, keyword, rest, hlines, -, hopening, hfirst⟩
  · exact absurd (hnone.symm.trans h) (by simp)
  · obtain rfl := Option.some.inj (hfirst.symm.trans h)
    have hline := (opening?_eq_some_iff.mp hopening).2.1
    have honwards : keyword ++ (rest ++ following below) =
        ['\n'].intercalate (line.dropWhile isBlank :: below) := by
      rw [intercalate_cons_eq, hline, List.append_assoc]
    have hbreaks : ∀ other ∈ line.dropWhile isBlank :: below, '\n' ∉ other := by
      have hall : ∀ other ∈ lines text, '\n' ∉ other :=
        fun other => not_mem_of_mem_lines
      rw [hlines] at hall
      rw [List.forall_mem_cons]
      refine ⟨fun hbreak => ?_, fun other hother => hall other (by simp [hother])⟩
      exact hall line (by simp) ((List.dropWhile_sublist _).subset hbreak)
    rw [Occurrence.onwards, honwards, opensFirst, lines,
      List.splitOn_intercalate '\n' hbreaks (by simp)]
    change opensLine (line.dropWhile isBlank) = true
    rw [opensLine, List.dropWhile_idempotent, hopening]
    rfl

theorem head_onwards {text : List Char} {occurrence : Occurrence}
    (h : first? text = some occurrence) :
    ∀ c ∈ occurrence.onwards.head?, isWhiteSpace c = false := by
  obtain ⟨c, letters, hletters, hc⟩ := exists_cons_of_mem (first?_split h).1
  rw [Occurrence.onwards, hletters]
  rintro d ⟨rfl⟩
  exact hc

theorem opensFirst_of_first? {text : List Char} {occurrence : Occurrence}
    (h : first? text = some occurrence) (hbefore : occurrence.before = []) :
    opensFirst text = true := by
  have hsplit := (first?_split h).2
  rw [hbefore, List.nil_append] at hsplit
  rw [← hsplit]
  exact opensFirst_onwards h

theorem opensFirst_trim (text : List Char) :
    opensFirst (trim text) = opensFirst (trimStart text) := by
  obtain ⟨tail, htail, hwhite⟩ :=
    exists_eq_dropWhileEnd_append isWhiteSpace (trimStart text)
  conv_rhs => rw [htail, opensFirst_append hwhite]
  rfl

section Head

variable {text : List Char} (hhead : ∀ c ∈ text.head?, isWhiteSpace c = false)

include hhead

theorem first?_of_opensFirst (h : opensFirst text = true) :
    ∃ occurrence, first? text = some occurrence ∧ occurrence.before = [] := by
  rcases first?_cases text with
    ⟨-, hnone⟩ | ⟨above, line, below, keyword, rest, hlines, habove, -, hfirst⟩
  · obtain ⟨first, below, htext⟩ :=
      List.exists_cons_of_ne_nil (List.splitOn_ne_nil '\n' text)
    rw [opensFirst, lines, htext] at h
    rw [lines, htext] at hnone
    exact absurd (hnone first List.mem_cons_self) (by simpa using h)
  · rw [opensFirst, hlines] at h
    cases above with
    | cons first above =>
        exact absurd (habove first List.mem_cons_self) (by simpa using h)
    | nil =>
        refine ⟨_, hfirst, ?_⟩
        change line.takeWhile isBlank = []
        cases line with
        | nil => rfl
        | cons c line =>
            have hc : isBlank c = false := by
              rw [Bool.eq_false_iff]
              intro hblank
              have hwhite := hhead c (by rw [eq_preceding_append hlines]; rfl)
              rw [isWhiteSpace_of_isBlank hblank] at hwhite
              exact Bool.noConfusion hwhite
            rw [List.takeWhile_cons_of_neg (by simp [hc])]

theorem trimStart_of_head : trimStart text = text := by
  cases text with
  | nil => rfl
  | cons c rest => exact trimStart_eq_self (hhead c rfl) rest

theorem opensFirst_trim_of_head : opensFirst (trim text) = opensFirst text := by
  rw [opensFirst_trim, trimStart_of_head hhead]

omit hhead in
theorem opensFirst_trim_of_opens (h : opens text = true) :
    opensFirst (trim text) = true := by
  rw [opensFirst_trim]
  unfold opens at h
  split at h
  next occurrence hfirst =>
    exact opensFirst_of_first? hfirst (List.isEmpty_iff.mp h)
  next => exact Bool.noConfusion h

end Head

end Keyword

namespace Sanitize

open Keyword

/-- The rules that add quotes do not touch the start of a diagram. -/
theorem opensFirst_quotedText (text : List Char) :
    opensFirst (quotedText text) = opensFirst (trim text) := by
  have hquoting := (quoting .closed none (trim text)).lines
  rw [opensFirst, quotedText, lines_quoteTitles, opensFirst, List.head?_map]
  change List.Forall₂ AgreeToBracket _ (lines (quoteLabels (trim text)))
    at hquoting
  generalize lines (quoteLabels (trim text)) = others at hquoting
  generalize lines (trim text) = before at hquoting
  cases hquoting with
  | nil => rfl
  | cons hline _ => exact (opensLine_quoteTitle _).trans hline.opensLine_eq

theorem opensFirst_sanitize (text : List Char) :
    opensFirst (sanitize text) = opensFirst (firstDiagram (quotedText text)) := by
  obtain ⟨tail, hfirst, htail⟩ := exists_eq_sanitize_append text
  rw [hfirst, opensFirst_append htail]

theorem opensFirst_firstDiagram {text : List Char}
    (h : opensFirst text = true) : opensFirst (firstDiagram text) = true := by
  by_cases hone : (lines text).countP opensLine ≤ 1
  · rwa [firstDiagram_of_countP hone]
  · obtain ⟨above, line, inner, next, below, hlines, habove, hline, hinner,
      hnext⟩ := exists_first_two_openings (Nat.lt_of_not_le hone)
    rw [opensFirst,
      lines_firstDiagram_of_two hlines habove hline hinner hnext]
    change opensLine (line.dropWhile isBlank) = true
    rw [opensLine_dropWhile, hline]

theorem opensFirst_sanitize_trim {text : List Char}
    (h : opensFirst (trim text) = true) :
    opensFirst (sanitize (trim text)) = true := by
  rw [opensFirst_sanitize]
  apply opensFirst_firstDiagram
  rw [opensFirst_quotedText, (isTrimmed_trim text).trim_eq, h]

end Sanitize

end Flowchart
