import Flowchart.Proofs.Withdrawal
import Flowchart.Source.Sanitize
import Mathlib.Data.List.DropRight

/-!
# Lines that open diagrams, and what may change behind them

Whether a line opens a diagram is settled at the latest by the first visible
character behind the keyword.  What stands behind an opening bracket does not
matter to it, and neither does white space at the end of the line.
-/

namespace Flowchart.Keyword

open Text

/-- The text neither continues a word, a number or a version mark, nor opens a
diagram itself. -/
structure IsInert (text : List Char) : Prop where
  endsWord : endsWord text = true
  head : ∀ c ∈ text.head?, c ≠ '-'
  start : ∀ c ∈ (text.dropWhile isBlank).head?, isWordChar c = false

theorem isWordChar_of_mem {keyword : List Char} (h : keyword ∈ all) {c : Char}
    (hc : c ∈ keyword) : isWordChar c = true := by
  have hall : ∀ keyword ∈ all, keyword.all isWordChar = true := by decide
  exact List.all_eq_true.mp (hall keyword h) c hc

theorem isInert_bracket (rest : List Char) : IsInert ('[' :: rest) := by
  refine ⟨rfl, ?_, ?_⟩
  · rintro c ⟨rfl⟩
    decide
  · rintro c ⟨rfl⟩
    decide

theorem isInert_of_isWhiteSpace {tail : List Char}
    (h : ∀ c ∈ tail, isWhiteSpace c = true) : IsInert tail := by
  refine ⟨?_, ?_, ?_⟩
  · cases tail with
    | nil => rfl
    | cons c tail =>
        rw [Text.endsWord, isWordChar_of_isWhiteSpace (h c List.mem_cons_self)]
        rfl
  · rintro c hc rfl
    exact absurd (h _ (List.mem_of_mem_head? hc)) (by decide)
  · intro c hc
    apply isWordChar_of_isWhiteSpace
    exact h c ((List.dropWhile_sublist _).subset (List.mem_of_mem_head? hc))

namespace IsInert

variable {tail : List Char}

theorem not_cons_of_isWordChar (h : IsInert tail) {c : Char}
    (hc : isWordChar c = true) (rest : List Char) : tail ≠ c :: rest := by
  rintro rfl
  have := h.endsWord
  rw [Text.endsWord, hc] at this
  exact Bool.noConfusion this

theorem endsWord_append (h : IsInert tail) (text : List Char) :
    Text.endsWord (text ++ tail) = Text.endsWord text := by
  cases text with
  | nil => exact h.endsWord
  | cons c text => rfl

theorem dropWhile_isDigit_append (h : IsInert tail) (text : List Char) :
    (text ++ tail).dropWhile isDigit = text.dropWhile isDigit ++ tail := by
  rw [List.dropWhile_append]
  split
  next hempty =>
    rw [List.isEmpty_iff.mp hempty, List.nil_append]
    cases tail with
    | nil => rfl
    | cons c tail =>
        rw [List.dropWhile_cons_of_neg]
        intro hdigit
        exact h.not_cons_of_isWordChar (isWordChar_of_isDigit hdigit) tail rfl
  next => rfl

theorem startsVersion_append (h : IsInert tail) (text : List Char) :
    startsVersion (text ++ tail) = startsVersion text := by
  rw [Bool.eq_iff_iff, startsVersion_eq_true_iff, startsVersion_eq_true_iff]
  constructor
  · rintro ⟨d, rest, htext, hd⟩
    match text with
    | [] => exact absurd rfl (h.head '-' (congrArg List.head? htext))
    | [_] =>
        exact absurd (List.cons.inj htext).2
          (h.not_cons_of_isWordChar (by decide) (d :: rest))
    | [_, _] =>
        exact absurd (List.cons.inj (List.cons.inj htext).2).2
          (h.not_cons_of_isWordChar (isWordChar_of_isDigit hd) rest)
    | a :: b :: c :: text =>
        simp only [List.cons_append, List.cons.injEq] at htext
        obtain ⟨rfl, rfl, rfl, -⟩ := htext
        exact ⟨c, text, rfl, hd⟩
  · rintro ⟨d, rest, rfl, hd⟩
    exact ⟨d, rest ++ tail, rfl, hd⟩

theorem afterVersion_append (h : IsInert tail) (text : List Char) :
    afterVersion (text ++ tail) = afterVersion text ++ tail := by
  cases hversion : startsVersion text with
  | false =>
      rw [afterVersion_of_not_startsVersion hversion,
        afterVersion_of_not_startsVersion
          ((h.startsVersion_append text).trans hversion)]
  | true =>
      obtain ⟨d, rest, rfl, hd⟩ := startsVersion_eq_true_iff.mp hversion
      have hwhole : '-' :: 'v' :: d :: rest ++ tail =
          '-' :: 'v' :: d :: (rest ++ tail) := rfl
      rw [hwhole, afterVersion, afterVersion]
      simp only [h.dropWhile_isDigit_append, h.endsWord_append]
      split <;> rfl

theorem continuesStatement_append {other : List Char}
    (h : continuesStatement tail = continuesStatement other)
    (text : List Char) :
    continuesStatement (text ++ tail) = continuesStatement (text ++ other) := by
  by_cases hblank : text.dropWhile isBlank = []
  · have hdrop : ∀ more, (text ++ more).dropWhile isBlank =
        more.dropWhile isBlank := by
      intro more
      rw [List.dropWhile_append, hblank, List.isEmpty_nil, if_pos rfl]
    rw [continuesStatement, hdrop, continuesStatement, hdrop]
    exact h
  · obtain ⟨c, rest, hcons⟩ := List.exists_cons_of_ne_nil hblank
    have hdrop : ∀ more, (text ++ more).dropWhile isBlank =
        c :: (rest ++ more) := by
      intro more
      rw [List.dropWhile_append, hcons]
      rfl
    rw [continuesStatement, hdrop, continuesStatement, hdrop]

theorem not_opensLine (h : IsInert tail) : opensLine tail = false := by
  rw [Bool.eq_false_iff]
  intro hopens
  obtain ⟨⟨keyword, rest⟩, hopening⟩ := Option.isSome_iff_exists.mp hopens
  obtain ⟨hmem, htail, -⟩ := opening?_eq_some_iff.mp hopening
  obtain ⟨c, letters, rfl, -⟩ := exists_cons_of_mem hmem
  have hword := isWordChar_of_mem hmem (List.mem_cons_self (a := c))
  rw [h.start c (by rw [htail]; rfl)] at hword
  exact Bool.noConfusion hword

theorem opensLine_append_of {other : List Char} (htail : IsInert tail)
    (hother : IsInert other)
    (h : continuesStatement tail = continuesStatement other)
    {line : List Char} (hopens : opensLine (line ++ tail) = true) :
    opensLine (line ++ other) = true := by
  obtain ⟨⟨keyword, rest⟩, hopening⟩ := Option.isSome_iff_exists.mp hopens
  obtain ⟨hmem, hline, hends, hstays⟩ := opening?_eq_some_iff.mp hopening
  by_cases hblank : line.dropWhile isBlank = []
  · have hnone := htail.not_opensLine
    rw [List.dropWhile_append, hblank, List.isEmpty_nil, if_pos rfl] at hopening
    rw [opensLine, hopening] at hnone
    exact Bool.noConfusion hnone
  · have hdrop : ∀ more, (line ++ more).dropWhile isBlank =
        line.dropWhile isBlank ++ more := by
      intro more
      rw [List.dropWhile_append, if_neg (by simpa using hblank)]
    rw [hdrop] at hline
    -- No keyword reaches into the tail.
    obtain ⟨more, hstart, hrest⟩ : ∃ more,
        line.dropWhile isBlank = keyword ++ more ∧ rest = more ++ tail := by
      rcases List.append_eq_append_iff.mp hline with
        ⟨more, hkeyword, htailEq⟩ | ⟨more, hstart, hrest⟩
      · cases more with
        | nil => exact ⟨[], by simpa using hkeyword.symm, htailEq.symm⟩
        | cons c more =>
            refine absurd htailEq (htail.not_cons_of_isWordChar ?_ _)
            exact isWordChar_of_mem hmem (by simp [hkeyword])
      · exact ⟨more, hstart, hrest⟩
    have hopening' : opening? ((line ++ other).dropWhile isBlank) =
        some (keyword, more ++ other) := by
      rw [hrest, htail.endsWord_append] at hends
      rw [hrest, htail.afterVersion_append, continuesStatement_append h] at hstays
      rw [hdrop, hstart, List.append_assoc, opening?_eq_some_iff,
        hother.endsWord_append, hother.afterVersion_append]
      exact ⟨hmem, rfl, hends, hstays⟩
    rw [opensLine, hopening']
    rfl

theorem opensLine_append {other : List Char} (htail : IsInert tail)
    (hother : IsInert other)
    (h : continuesStatement tail = continuesStatement other)
    (line : List Char) : opensLine (line ++ tail) = opensLine (line ++ other) := by
  rw [Bool.eq_iff_iff]
  exact ⟨opensLine_append_of htail hother h,
    opensLine_append_of hother htail h.symm⟩

end IsInert

theorem opensLine_bracket (line rest more : List Char) :
    opensLine (line ++ '[' :: rest) = opensLine (line ++ '[' :: more) :=
  (isInert_bracket rest).opensLine_append (isInert_bracket more) rfl line

theorem opensLine_append_isWhiteSpace {tail : List Char}
    (h : ∀ c ∈ tail, isWhiteSpace c = true) (line : List Char) :
    opensLine (line ++ tail) = opensLine line := by
  have hcontinues : continuesStatement tail = continuesStatement [] := by
    rw [continuesStatement]
    split
    next => rfl
    next c rest hdrop =>
      have hwhite : isWhiteSpace c = true := by
        apply h
        apply (List.dropWhile_sublist isBlank).subset
        rw [hdrop]
        exact List.mem_cons_self
      rw [Bool.eq_iff_iff]
      refine ⟨fun hmem => ?_, fun hnil => Bool.noConfusion hnil⟩
      rw [(of_mem_continuations (List.contains_iff_mem.mp hmem)).1] at hwhite
      exact Bool.noConfusion hwhite
  have hempty : IsInert [] := isInert_of_isWhiteSpace (by simp)
  have hsame :=
    (isInert_of_isWhiteSpace h).opensLine_append hempty hcontinues line
  rwa [List.append_nil] at hsame

theorem opensLine_of_isWhiteSpace {line : List Char}
    (h : ∀ c ∈ line, isWhiteSpace c = true) : opensLine line = false :=
  opensLine_append_isWhiteSpace h []

theorem opensLine_dropWhile (line : List Char) :
    opensLine (line.dropWhile isBlank) = opensLine line := by
  rw [opensLine, List.dropWhile_idempotent, opensLine]

/-! ### Counting diagrams -/

theorem exists_first_opensLine {lines : List (List Char)}
    (h : 0 < lines.countP opensLine) :
    ∃ above line below, lines = above ++ line :: below ∧
      (∀ line ∈ above, opensLine line = false) ∧ opensLine line = true := by
  obtain ⟨line, hmem, hline⟩ := List.countP_pos_iff.mp h
  have hsome : (lines.find? opensLine).isSome = true :=
    List.find?_isSome.mpr ⟨line, hmem, hline⟩
  obtain ⟨first, hfirst⟩ := Option.isSome_iff_exists.mp hsome
  obtain ⟨hopens, above, below, hsplit, habove⟩ :=
    List.find?_eq_some_iff_append.mp hfirst
  exact ⟨above, first, below, hsplit, by simpa using habove, hopens⟩

theorem length_inLines (before : List Char) (lines : List (List Char)) :
    (inLines before lines).length = lines.countP opensLine := by
  induction lines generalizing before with
  | nil => rfl
  | cons line below ih =>
      have hline : (inLine? before line below).toList.length =
          if opensLine line then 1 else 0 := by
        rw [← isSome_inLine? before line below]
        cases inLine? before line below <;> rfl
      rw [inLines, List.length_append, ih, hline, List.countP_cons]
      omega

theorem length_occurrences (text : List Char) :
    (occurrences text).length = (lines text).countP opensLine :=
  length_inLines [] (lines text)

end Flowchart.Keyword
