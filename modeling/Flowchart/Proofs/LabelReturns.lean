import Flowchart.Proofs.CarriageReturns
import Flowchart.Statement.Connector

/-!
# Labels over several lines

A label may run over several lines, in quotes or between tags.  It is shown
without its carriage returns: in quotes every line break becomes a blank, and
otherwise each line is trimmed.
-/

namespace Flowchart.Label

open Text

variable {text other : List Char}

/-! ### Escapes -/

theorem unescape_backslash {c : Char} (hquote : c ≠ '"') (hslash : c ≠ '\\')
    (hn : c ≠ 'n') (rest : List Char) :
    unescape ('\\' :: c :: rest) = '\\' :: c :: unescape rest := by
  rw [unescape] <;> simp_all

/-- What stands for an escape does not depend on the text behind it. -/
theorem exists_unescape_eq {c : Char} (hc : c ≠ '\r') :
    ∃ start, '\r' ∉ start ∧
      ∀ rest, unescape ('\\' :: c :: rest) = start ++ unescape rest := by
  by_cases hquote : c = '"'
  · subst hquote
    exact ⟨['"'], by decide, fun rest => by rw [unescape]; rfl⟩
  by_cases hslash : c = '\\'
  · subst hslash
    exact ⟨['\\'], by decide, fun rest => by rw [unescape]; rfl⟩
  by_cases hn : c = 'n'
  · subst hn
    exact ⟨[' '], by decide, fun rest => by rw [unescape]; rfl⟩
  · refine ⟨['\\', c], by simpa using hc.symm, fun rest => ?_⟩
    rw [unescape_backslash hquote hslash hn]
    rfl

theorem unescape_withReturns (h : WithReturns text other) :
    WithReturns (unescape text) (unescape other) := by
  induction hlength : text.length using Nat.strong_induction_on
    generalizing text other with
  | h length ih =>
      subst hlength
      cases h with
      | nil => exact .nil
      | newline h =>
          rw [unescape_cons (by decide), unescape_cons (by decide),
            unescape_cons (by decide)]
          exact .newline (ih _ (by simp) h rfl)
      | @cons c text other hc h =>
          by_cases hslash : c = '\\'
          · subst hslash
            -- The backslash goes with what follows it, be that a line break.
            cases h with
            | nil => exact .refl (by decide)
            | newline h =>
                rw [unescape_backslash (by decide) (by decide) (by decide),
                  unescape_backslash (by decide) (by decide) (by decide),
                  unescape_cons (by decide)]
                have hrest := ih _ (Nat.lt_succ_of_lt (Nat.lt_succ_self _)) h rfl
                exact .cons hc (.newline hrest)
            | cons hd h =>
                obtain ⟨start, hstart, hescape⟩ := exists_unescape_eq hd
                have hrest := ih _ (Nat.lt_succ_of_lt (Nat.lt_succ_self _)) h rfl
                rw [hescape, hescape]
                exact (WithReturns.refl hstart).append hrest
          · rw [unescape_cons hslash, unescape_cons hslash]
            exact .cons hc (ih _ (by simp) h rfl)

/-! ### Pieces that are replaced -/

/-- The reader recognizes the same pieces in both forms of a text. -/
structure Recognizes (after? : List Char → Option (List Char)) : Prop where
  rel : ∀ {text other : List Char}, WithReturns text other →
    Option.Rel WithReturns (after? text) (after? other)
  length_lt : ∀ {text rest : List Char}, after? text = some rest →
    rest.length < text.length

section Replacing

variable {after? : List Char → Option (List Char)}

theorem replaceAll_of_some (hlt : ∀ {text rest : List Char},
      after? text = some rest → rest.length < text.length)
    {rest : List Char} (h : after? text = some rest)
    (replacement : List Char) :
    replaceAll after? replacement text =
      replacement ++ replaceAll after? replacement rest := by
  cases text with
  | nil => exact absurd (hlt h) (Nat.not_lt_zero _)
  | cons c below =>
      rw [replaceAll, h]
      exact if_pos (hlt h)

theorem replaceAll_of_none {c : Char} (h : after? (c :: text) = none)
    (replacement : List Char) :
    replaceAll after? replacement (c :: text) =
      c :: replaceAll after? replacement text := by
  rw [replaceAll, h]

variable (hafter : Recognizes after?) (replacement : List Char)

include hafter

/-- Replacing pieces that start with no line break. -/
theorem replaceAll_withReturns (h : WithReturns text other)
    (hbreak : ∀ c text, isLineBreak c = true → after? (c :: text) = none)
    (hreplacement : '\r' ∉ replacement) :
    WithReturns (replaceAll after? replacement text)
      (replaceAll after? replacement other) := by
  induction hlength : text.length using Nat.strong_induction_on
    generalizing text other with
  | h length ih =>
      subst hlength
      cases h with
      | nil => rw [replaceAll]; exact .nil
      | newline h =>
          rw [replaceAll_of_none (hbreak _ _ rfl),
            replaceAll_of_none (hbreak _ _ rfl),
            replaceAll_of_none (hbreak _ _ rfl)]
          exact .newline (ih _ (by simp) h rfl)
      | @cons c text other hc h =>
          rcases rel_cases (hafter.rel (h.cons hc)) with
            ⟨hnone, hnone'⟩ | ⟨rest, rest', hsome, hsome', hrest⟩
          · rw [replaceAll_of_none hnone, replaceAll_of_none hnone']
            exact .cons hc (ih _ (by simp) h rfl)
          · rw [replaceAll_of_some hafter.length_lt hsome,
              replaceAll_of_some hafter.length_lt hsome']
            exact (WithReturns.refl hreplacement).append
              (ih _ (hafter.length_lt hsome) hrest rfl)

/-- Replacing pieces that take in every line break. -/
theorem replaceAll_eq (h : WithReturns text other)
    (hbreak : ∀ text, (after? ('\n' :: text)).isSome = true) :
    replaceAll after? replacement text = replaceAll after? replacement other := by
  induction hlength : text.length using Nat.strong_induction_on
    generalizing text other with
  | h length ih =>
      subst hlength
      rcases rel_cases (hafter.rel h) with
        ⟨hnone, hnone'⟩ | ⟨rest, rest', hsome, hsome', hrest⟩
      · cases h with
        | nil => rfl
        | @newline text other h =>
            have hsome := hbreak text
            rw [hnone] at hsome
            cases hsome
        | cons hc h =>
            rw [replaceAll_of_none hnone, replaceAll_of_none hnone',
              ih _ (by simp) h rfl]
      · rw [replaceAll_of_some hafter.length_lt hsome,
          replaceAll_of_some hafter.length_lt hsome',
          ih _ (hafter.length_lt hsome) hrest rfl]

end Replacing

/-! ### Line breaks and tags -/

theorem afterLineBreak?_withReturns (h : WithReturns text other) :
    Option.Rel WithReturns (afterLineBreak? text) (afterLineBreak? other) := by
  cases h with
  | nil => exact .none
  | newline h => exact .some h
  | @cons c text other hc h =>
      by_cases hfeed : c = '\n'
      · subst hfeed
        exact .some h
      · have hnone (text : List Char) : afterLineBreak? (c :: text) = none := by
          unfold afterLineBreak?
          split <;> simp_all
        rw [hnone, hnone]
        exact .none

theorem recognizes_afterBrokenLine? : Recognizes afterBrokenLine? where
  rel h := rel_map
    (afterLineBreak?_withReturns (h.dropWhile (by decide)))
    fun _ _ hrest => hrest.dropWhile (by decide)
  length_lt := by
    intro text rest h
    obtain ⟨behind, hbehind, rfl⟩ := Option.map_eq_some_iff.mp h
    have hblank := (List.dropWhile_suffix isBlank (l := text)).length_le
    have hrest := (List.dropWhile_suffix isBlank (l := behind)).length_le
    have hlt := length_lt_of_afterLineBreak? hbehind
    omega

theorem isSome_afterBrokenLine? (text : List Char) :
    (afterBrokenLine? ('\n' :: text)).isSome = true := by
  rw [afterBrokenLine?, List.dropWhile_cons_of_neg (by decide)]
  rfl

theorem afterBreakTag?_cons (b r : Char) (text : List Char) :
    afterBreakTag? ('<' :: b :: r :: text) =
      if (b = 'b' ∨ b = 'B') ∧ (r = 'r' ∨ r = 'R') then
        (after? ['>'] (text.dropWhile isWhiteSpace) <|>
          after? ['/', '>'] (text.dropWhile isWhiteSpace))
      else none := by
  rw [afterBreakTag?]
  split
  next =>
    generalize text.dropWhile isWhiteSpace = start
    split
    next after => rfl
    next after => rfl
    next hclosed hslashed =>
      have hclosing : after? ['>'] start = none := by
        rw [after?_eq_none_iff]
        rintro ⟨rest, rfl⟩
        exact hclosed rest rfl
      have hslash : after? ['/', '>'] start = none := by
        rw [after?_eq_none_iff]
        rintro ⟨rest, rfl⟩
        exact hslashed rest rfl
      rw [hclosing, hslash]
      rfl
  next => rfl

theorem afterBreakTag?_of_ne {c : Char} (hc : c ≠ '<') (text : List Char) :
    afterBreakTag? (c :: text) = none := by
  unfold afterBreakTag?
  split <;> simp_all

theorem afterBreakTag?_of_not_letter {b : Char} (hb : ¬ (b = 'b' ∨ b = 'B'))
    (text : List Char) : afterBreakTag? ('<' :: b :: text) = none := by
  cases text with
  | nil => rfl
  | cons r text => rw [afterBreakTag?_cons, if_neg fun h => hb h.1]

theorem afterBreakTag?_isLineBreak (c : Char) (text : List Char)
    (hc : isLineBreak c = true) : afterBreakTag? (c :: text) = none := by
  apply afterBreakTag?_of_ne
  rintro rfl
  exact absurd hc (by decide)

theorem length_afterBreakTag?_lt {rest : List Char}
    (h : afterBreakTag? text = some rest) : rest.length < text.length := by
  unfold afterBreakTag? at h
  split at h
  next b r more =>
    split at h
    next =>
      have hmore := (List.dropWhile_suffix isWhiteSpace (l := more)).length_le
      split at h
      next after hstart =>
        obtain rfl := Option.some.inj h
        rw [hstart] at hmore
        simp only [List.length_cons] at hmore ⊢
        omega
      next after hstart =>
        obtain rfl := Option.some.inj h
        rw [hstart] at hmore
        simp only [List.length_cons] at hmore ⊢
        omega
      next => exact absurd h (by simp)
    next => exact absurd h (by simp)
  next => exact absurd h (by simp)

theorem recognizes_afterBreakTag? : Recognizes afterBreakTag? where
  rel h := by
    cases h with
    | nil => exact .none
    | newline h => exact .none
    | @cons c text other hc h =>
        by_cases hopen : c = '<'
        · subst hopen
          cases h with
          | nil => exact .none
          | newline h =>
              rw [afterBreakTag?_of_not_letter (by decide),
                afterBreakTag?_of_not_letter (by decide)]
              exact .none
          | @cons b text other hb h =>
              cases h with
              | nil => exact .none
              | newline h =>
                  rw [afterBreakTag?_cons, if_neg (by simp), afterBreakTag?_cons,
                    if_neg (by simp)]
                  exact .none
              | @cons r text other hr h =>
                  have hrest : WithReturns (text.dropWhile isWhiteSpace)
                      (other.dropWhile isWhiteSpace) := h.dropWhile (by decide)
                  rw [afterBreakTag?_cons, afterBreakTag?_cons]
                  split
                  · exact rel_orElse (hrest.after? (by decide))
                      (hrest.after? (by decide))
                  · exact .none
        · rw [afterBreakTag?_of_ne hopen, afterBreakTag?_of_ne hopen]
          exact .none
  length_lt := length_afterBreakTag?_lt

theorem afterTagName?_withReturns (h : WithReturns text other) :
    Option.Rel WithReturns (afterTagName? text) (afterTagName? other) := by
  cases h with
  | nil => exact .none
  | newline h => exact .none
  | @cons c text other hc h =>
      rw [afterTagName?, afterTagName?]
      split
      · exact (h.dropWhile (by decide)).after? (by decide)
      · exact .none

theorem length_afterTagName?_lt {rest : List Char}
    (h : afterTagName? text = some rest) : rest.length < text.length := by
  cases text with
  | nil => exact absurd h (by simp [afterTagName?])
  | cons c text =>
      rw [afterTagName?, Option.ite_none_right_eq_some] at h
      have hrest := after?_eq_some_iff.mp h.2
      have htext := (List.dropWhile_suffix (fun d => d != '<' && d != '>')
        (l := text)).length_le
      rw [hrest, List.length_append] at htext
      simp only [List.length_cons, List.length_nil] at htext ⊢
      omega

/-- A tag starts with its bracket, and its name may follow a slash. -/
theorem afterTag?_cons (c : Char) (text : List Char) :
    afterTag? (c :: text) =
      if c = '<' then afterTagName? ((after? ['/'] text).getD text)
      else none := by
  unfold afterTag?
  split
  next name heq =>
    obtain ⟨rfl, rfl⟩ := List.cons.inj heq
    rw [if_pos rfl, after?_singleton, Option.getD_some]
  next name hslash heq =>
    obtain ⟨rfl, rfl⟩ := List.cons.inj heq
    have hnone : after? ['/'] text = none := by
      rw [after?_eq_none_iff]
      rintro ⟨rest, rfl⟩
      exact hslash rest rfl
    rw [if_pos rfl, hnone, Option.getD_none]
  next hopen =>
    rw [if_neg]
    rintro rfl
    exact hopen text rfl

theorem recognizes_afterTag? : Recognizes afterTag? where
  rel h := by
    cases h with
    | nil => exact .none
    | newline h => exact .none
    | @cons c text other hc h =>
        have hname : WithReturns ((after? ['/'] text).getD text)
            ((after? ['/'] other).getD other) := by
          have hslash : Option.Rel WithReturns (after? ['/'] text)
              (after? ['/'] other) := h.after? (by decide)
          rcases rel_cases hslash with
            ⟨hnone, hnone'⟩ | ⟨rest, rest', hsome, hsome', hrest⟩
          · rwa [hnone, hnone']
          · rwa [hsome, hsome']
        rw [afterTag?_cons, afterTag?_cons]
        split
        · exact afterTagName?_withReturns hname
        · exact .none
  length_lt := by
    intro text rest h
    cases text with
    | nil => exact absurd h (by simp [afterTag?])
    | cons c text =>
        rw [afterTag?_cons, Option.ite_none_right_eq_some] at h
        have hname := length_afterTagName?_lt h.2
        have hslash : ((after? ['/'] text).getD text).length ≤ text.length := by
          cases hafter : after? ['/'] text with
          | none => exact le_rfl
          | some name => exact (Grammar.suffix_of_after? hafter).length_le
        exact Nat.lt_succ_of_lt (hname.trans_le hslash)

theorem afterTag?_isLineBreak (c : Char) (text : List Char)
    (hc : isLineBreak c = true) : afterTag? (c :: text) = none := by
  rw [afterTag?_cons, if_neg]
  rintro rfl
  exact absurd hc (by decide)

/-! ### Lines of a label -/

theorem trim_eq_of_withReturn {line other : List Char}
    (h : WithReturn line other) : trim line = trim other := by
  rcases h with rfl | rfl
  · rfl
  · exact (trim_append_isWhiteSpace line isWhiteSpace_return).symm

theorem trimLines_eq (h : WithReturns text other) :
    trimLines text = trimLines other := by
  have hlines : (lines text).map trim = (lines other).map trim := by
    rw [← List.forall₂_eq_eq_eq, List.forall₂_map_left_iff,
      List.forall₂_map_right_iff]
    exact h.lines.imp fun _ _ => trim_eq_of_withReturn
  rw [trimLines, trimLines, hlines]

/-- A label is shown without its carriage returns. -/
theorem normalize_eq (h : WithReturns text other) (quoted : Bool) :
    normalize text quoted = normalize other quoted := by
  cases quoted with
  | true =>
      have hlines := replaceAll_eq recognizes_afterBrokenLine? [' ']
        (unescape_withReturns h) isSome_afterBrokenLine?
      rw [normalize, normalize, if_pos rfl, if_pos rfl, hlines]
  | false =>
      have hbroken := replaceAll_withReturns recognizes_afterBreakTag? ['\n'] h
        afterBreakTag?_isLineBreak (by decide)
      have htags := replaceAll_withReturns recognizes_afterTag? [] hbroken
        afterTag?_isLineBreak (by decide)
      exact trimLines_eq htags

end Flowchart.Label

namespace Flowchart.Grammar

open Text

variable {text other : List Char}

theorem unquoted?_withReturns (h : WithReturns text other) :
    Option.Rel WithReturns (unquoted? text) (unquoted? other) :=
  rel_bind (h.after? (by decide)) fun _ _ hrest =>
    hrest.beforeFinal? (by decide)

theorem edgeLabel?_eq (h : WithReturns text other) :
    edgeLabel? text = edgeLabel? other := by
  rw [edgeLabel?, edgeLabel?]
  rcases rel_cases (unquoted?_withReturns h.trim) with
    ⟨hnone, hnone'⟩ | ⟨inner, inner', hsome, hsome', hlabel⟩
  · rw [hnone, hnone', Label.normalize_eq h.trim]
  · rw [hsome, hsome']
    simp only [Label.normalize_eq hlabel]

end Flowchart.Grammar
