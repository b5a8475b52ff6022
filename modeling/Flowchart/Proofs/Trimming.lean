import Flowchart.Text.Basic
import Mathlib.Data.List.TakeWhile

/-!
# Trimming

White space at either end of a text does not show in the trimmed text, which
itself neither starts nor ends with white space.
-/

namespace Flowchart.Text

theorem dropWhileEnd_append_of_all {inClass : Char → Bool}
    (text : List Char) {tail : List Char}
    (h : ∀ c ∈ tail, inClass c = true) :
    dropWhileEnd inClass (text ++ tail) = dropWhileEnd inClass text := by
  unfold dropWhileEnd
  rw [List.reverse_append, List.dropWhile_append_of_pos]
  simpa using h

theorem dropWhileEnd_append_of_not_all {inClass : Char → Bool}
    (text : List Char) {tail : List Char}
    (h : ∃ c ∈ tail, inClass c = false) :
    dropWhileEnd inClass (text ++ tail) = text ++ dropWhileEnd inClass tail := by
  have hne : tail.reverse.dropWhile inClass ≠ [] := by
    rw [Ne, List.dropWhile_eq_nil_iff]
    obtain ⟨c, hc, hout⟩ := h
    intro hall
    rw [hall c (List.mem_reverse.mpr hc)] at hout
    exact Bool.noConfusion hout
  unfold dropWhileEnd
  rw [List.reverse_append, List.dropWhile_append, if_neg (by simpa using hne),
    List.reverse_append, List.reverse_reverse]

theorem dropWhileEnd_isPrefix (inClass : Char → Bool) (text : List Char) :
    dropWhileEnd inClass text <+: text := by
  rw [← List.reverse_suffix, dropWhileEnd, List.reverse_reverse]
  exact List.dropWhile_suffix inClass

theorem not_infix_trim {pattern text : List Char}
    (h : ¬ pattern <:+: text) : ¬ pattern <:+: trim text := by
  intro hinside
  have htrim : trim text <:+: text :=
    (dropWhileEnd_isPrefix isWhiteSpace _).isInfix.trans
      (List.dropWhile_suffix isWhiteSpace).isInfix
  exact h (hinside.trans htrim)

theorem isWhiteSpace_of_isLineBreak {c : Char} (h : isLineBreak c = true) :
    isWhiteSpace c = true := by
  rcases Bool.or_eq_true_iff.mp h with h | h <;>
    rw [beq_iff_eq.mp h] <;> decide

theorem isWhiteSpace_of_isBlank {c : Char} (h : isBlank c = true) :
    isWhiteSpace c = true := by
  rcases Bool.or_eq_true_iff.mp h with h | h <;>
    rw [beq_iff_eq.mp h] <;> decide

theorem isWhiteSpace_newline : ∀ c ∈ ['\n'], isWhiteSpace c = true := by
  simp [isWhiteSpace_of_isLineBreak, isLineBreak]

theorem isWhiteSpace_return : ∀ c ∈ ['\r'], isWhiteSpace c = true := by
  simp [isWhiteSpace_of_isLineBreak, isLineBreak]

theorem isLineBreak_newline : ∀ c ∈ ['\n'], isLineBreak c = true := by
  simp [isLineBreak]

/-- The code points of white space, one by one. -/
def whiteSpaceCodes : List Nat :=
  [9, 10, 11, 12, 13, 0x20, 0x85, 0xA0, 0x1680, 0x2000, 0x2001, 0x2002, 0x2003,
   0x2004, 0x2005, 0x2006, 0x2007, 0x2008, 0x2009, 0x200A, 0x2028, 0x2029,
   0x202F, 0x205F, 0x3000]

theorem mem_whiteSpaceCodes {c : Char} (h : isWhiteSpace c = true) :
    c.toNat ∈ whiteSpaceCodes := by
  simp only [isWhiteSpace, inRanges, List.any_cons, List.any_nil,
    Bool.or_eq_true, Bool.and_eq_true, decide_eq_true_eq, Bool.false_eq_true,
    or_false] at h
  simp only [whiteSpaceCodes, List.mem_cons, List.not_mem_nil, or_false]
  omega

theorem isWordChar_of_isWhiteSpace {c : Char} (h : isWhiteSpace c = true) :
    isWordChar c = false := by
  have hcodes : ∀ code ∈ whiteSpaceCodes,
      isWordChar (Char.ofNat code) = false := by decide +kernel
  simpa using hcodes c.toNat (mem_whiteSpaceCodes h)

theorem isAlphanumeric_of_isWhiteSpace {c : Char} (h : isWhiteSpace c = true) :
    isAlphanumeric c = false := by
  have hcodes : ∀ code ∈ whiteSpaceCodes,
      isAlphanumeric (Char.ofNat code) = false := by decide +kernel
  simpa using hcodes c.toNat (mem_whiteSpaceCodes h)

theorem trim_append_of_isWhiteSpace {before : List Char} (text : List Char)
    (h : ∀ c ∈ before, isWhiteSpace c = true) :
    trim (before ++ text) = trim text := by
  rw [trim, trimStart, List.dropWhile_append_of_pos h, trim, trimStart]

theorem trim_append_isWhiteSpace (text : List Char) {tail : List Char}
    (h : ∀ c ∈ tail, isWhiteSpace c = true) :
    trim (text ++ tail) = trim text := by
  rw [trim, trim, trimStart, trimStart, List.dropWhile_append]
  split
  next hempty =>
    rw [List.dropWhile_eq_nil_iff.mpr h, List.isEmpty_iff.mp hempty]
  next => exact dropWhileEnd_append_of_all _ h

theorem trimStart_eq_self {c : Char} (h : isWhiteSpace c = false)
    (text : List Char) : trimStart (c :: text) = c :: text := by
  rw [trimStart, List.dropWhile_cons_of_neg (by simp [h])]

theorem trim_isPrefix {c : Char} (h : isWhiteSpace c = false)
    (text : List Char) : trim (c :: text) <+: c :: text := by
  rw [trim, trimStart_eq_self h]
  exact dropWhileEnd_isPrefix isWhiteSpace _

theorem prefix_trim {first last : Char} {inner : List Char}
    (hfirst : isWhiteSpace first = false) (hlast : isWhiteSpace last = false)
    (rest : List Char) :
    first :: inner ++ [last] <+: trim (first :: inner ++ last :: rest) := by
  have htrim : trim (first :: inner ++ last :: rest) =
      first :: inner ++ trimEnd (last :: rest) := by
    rw [trim, List.cons_append, trimStart_eq_self hfirst, ← List.cons_append]
    exact dropWhileEnd_append_of_not_all _ ⟨last, by simp, hlast⟩
  have hkept : [last] <+: trimEnd (last :: rest) := by
    by_cases hrest : ∃ c ∈ rest, isWhiteSpace c = false
    · have hend : trimEnd (last :: rest) = [last] ++ trimEnd rest :=
        dropWhileEnd_append_of_not_all [last] hrest
      rw [hend]
      exact List.prefix_append _ _
    · have hall : ∀ c ∈ rest, isWhiteSpace c = true := by simpa using hrest
      have hend : trimEnd ([last] ++ rest) = trimEnd [last] :=
        dropWhileEnd_append_of_all [last] hall
      change [last] <+: trimEnd ([last] ++ rest)
      rw [hend]
      simp [trimEnd, dropWhileEnd, hlast]
  rw [htrim]
  exact (List.prefix_append_right_inj _).mpr hkept

theorem trim_dropWhile_isLineBreak (text : List Char) :
    trim (text.dropWhile isLineBreak) = trim text := by
  have hsplit : text =
      text.takeWhile isLineBreak ++ text.dropWhile isLineBreak :=
    List.takeWhile_append_dropWhile.symm
  rw [hsplit, trim_append_of_isWhiteSpace, ← hsplit]
  intro c hc
  exact isWhiteSpace_of_isLineBreak (List.mem_takeWhile_imp hc)

theorem isWordChar_of_isDigit {c : Char} (h : isDigit c = true) :
    isWordChar c = true := by
  by_cases hascii : c.toNat < 0x80
  · rw [isDigit_ascii hascii] at h
    rw [isWordChar_ascii hascii]
    simp [Char.isAlphanum, h]
  · rw [isDigit, if_neg hascii] at h
    simp [isWordChar, hascii, h]

/-- Neither end of the text is white space. -/
structure IsTrimmed (text : List Char) : Prop where
  head : ∀ c ∈ text.head?, isWhiteSpace c = false
  last : ∀ c ∈ text.getLast?, isWhiteSpace c = false

theorem exists_append_of_isWhiteSpace {line tail start more : List Char}
    {last : Char} (htail : ∀ c ∈ tail, isWhiteSpace c = true)
    (hlast : isWhiteSpace last = false)
    (h : line ++ tail = start ++ [last] ++ more) :
    ∃ inner, line = start ++ [last] ++ inner ∧ more = inner ++ tail := by
  rcases List.append_eq_append_iff.mp h with
    ⟨inner, hstart, hwhite⟩ | ⟨inner, hline, hmore⟩
  · rcases List.eq_nil_or_concat inner with rfl | ⟨before, other, heq⟩
    · refine ⟨[], ?_, ?_⟩
      · simpa using hstart.symm
      · simpa using hwhite.symm
    · rw [List.concat_eq_append] at heq
      subst heq
      have hparts : start ++ [last] = (line ++ before) ++ [other] := by
        rw [hstart, List.append_assoc]
      obtain rfl : last = other := by
        simpa using (List.append_inj' hparts rfl).2
      rw [htail last (by rw [hwhite]; simp)] at hlast
      exact Bool.noConfusion hlast
  · exact ⟨inner, hline, hmore⟩

theorem exists_eq_dropWhileEnd_append (inClass : Char → Bool)
    (text : List Char) :
    ∃ tail, text = dropWhileEnd inClass text ++ tail ∧
      ∀ c ∈ tail, inClass c = true := by
  refine ⟨(text.reverse.takeWhile inClass).reverse, ?_, ?_⟩
  · rw [dropWhileEnd, ← List.reverse_append,
      List.takeWhile_append_dropWhile, List.reverse_reverse]
  · intro c hc
    exact List.mem_takeWhile_imp (List.mem_reverse.mp hc)

theorem exists_eq_trim (text : List Char) :
    ∃ tail, text = text.takeWhile isWhiteSpace ++ (trim text ++ tail) ∧
      ∀ c ∈ tail, isWhiteSpace c = true := by
  obtain ⟨tail, htail, hwhite⟩ :=
    exists_eq_dropWhileEnd_append isWhiteSpace (trimStart text)
  refine ⟨tail, ?_, hwhite⟩
  have hrest : trim text ++ tail = text.dropWhile isWhiteSpace := htail.symm
  rw [hrest, List.takeWhile_append_dropWhile]

theorem trimEnd_eq_self {text : List Char}
    (h : ∀ c ∈ text.getLast?, isWhiteSpace c = false) : trimEnd text = text := by
  rw [trimEnd, dropWhileEnd]
  cases hreverse : text.reverse with
  | nil => simpa using hreverse.symm
  | cons c rest =>
      have hlast : c ∈ text.getLast? := by
        rw [← List.head?_reverse, hreverse]
        rfl
      rw [List.dropWhile_cons_of_neg (by simp [h c hlast]), ← hreverse,
        List.reverse_reverse]

theorem last_trimEnd (text : List Char) :
    ∀ c ∈ (trimEnd text).getLast?, isWhiteSpace c = false := by
  intro c hc
  rw [trimEnd, dropWhileEnd, List.getLast?_reverse] at hc
  have hhead := List.head?_dropWhile_not isWhiteSpace text.reverse
  rw [hc] at hhead
  simpa using hhead

theorem IsTrimmed.trim_eq {text : List Char} (h : IsTrimmed text) :
    trim text = text := by
  have hstart : trimStart text = text := by
    cases text with
    | nil => rfl
    | cons c text => exact trimStart_eq_self (h.head c rfl) text
  rw [trim, hstart, trimEnd_eq_self h.last]

theorem isTrimmed_trim (text : List Char) : IsTrimmed (trim text) := by
  refine ⟨?_, last_trimEnd _⟩
  intro c hc
  have hhead := List.head?_dropWhile_not isWhiteSpace text
  obtain ⟨tail, htail⟩ := dropWhileEnd_isPrefix isWhiteSpace (trimStart text)
  have hstart : (text.dropWhile isWhiteSpace).head? = some c := by
    change (trimStart text).head? = some c
    have hsome : (dropWhileEnd isWhiteSpace (trimStart text)).head? = some c := hc
    rw [← htail, List.head?_append, hsome, Option.some_or]
  rw [hstart] at hhead
  exact hhead

end Flowchart.Text
