import Flowchart.Proofs.Keywords
import Flowchart.Proofs.Trimming

/-!
# Keywords in growing text

What opens a diagram is judged on the text that has arrived so far.  More text
does not change the verdict once something else than a blank follows the
keyword, with one exception: a version mark is taken for part of the keyword,
but only until it turns out to be part of a longer word or of a statement.
-/

namespace Flowchart.Keyword

open Text

theorem continuesStatement_append {text : List Char}
    (h : ∃ c ∈ text, isBlank c = false) (more : List Char) :
    continuesStatement (text ++ more) = continuesStatement text := by
  have hne : text.dropWhile isBlank ≠ [] := by
    rw [Ne, List.dropWhile_eq_nil_iff]
    obtain ⟨c, hc, hblank⟩ := h
    intro hall
    rw [hall c hc] at hblank
    exact Bool.noConfusion hblank
  obtain ⟨c, rest, hdrop⟩ := List.exists_cons_of_ne_nil hne
  rw [continuesStatement, continuesStatement, List.dropWhile_append, hdrop]
  rfl

/-- The text starts with a version mark, complete or not. -/
def startsVersion : List Char → Bool
  | '-' :: 'v' :: d :: _ => isDigit d
  | _ => false

theorem startsVersion_eq_true_iff {text : List Char} :
    startsVersion text = true ↔
      ∃ d tail, text = '-' :: 'v' :: d :: tail ∧ isDigit d = true := by
  unfold startsVersion
  split
  next d tail => simp
  next h =>
    simp only [Bool.false_eq_true, false_iff, not_exists, not_and]
    rintro d tail rfl
    exact absurd rfl (h d tail)

theorem afterVersion_of_not_startsVersion {text : List Char}
    (h : startsVersion text = false) : afterVersion text = text := by
  unfold afterVersion
  split
  next => simp_all [startsVersion]
  next => rfl

/-- Once something else than a blank follows a keyword, and no version mark,
nothing that comes later changes that it opens a diagram. -/
theorem opening?_append {text keyword rest : List Char}
    (h : opening? text = some (keyword, rest))
    (hrest : ∃ c ∈ rest, isBlank c = false)
    (hversion : startsVersion rest = false) (more : List Char) :
    opening? (text ++ more) = some (keyword, rest ++ more) := by
  obtain ⟨hmem, htext, hends, hstays⟩ := opening?_eq_some_iff.mp h
  rw [afterVersion_of_not_startsVersion hversion] at hstays
  rw [opening?_eq_some_iff]
  obtain ⟨c, tail, rfl⟩ : ∃ c tail, rest = c :: tail :=
    List.exists_cons_of_ne_nil (by
      obtain ⟨c, hc, -⟩ := hrest
      exact List.ne_nil_of_mem hc)
  have hhyphen : c ≠ '-' := by
    rintro rfl
    exact absurd hstays (by simp [continuesStatement, isBlank, continuations])
  refine ⟨hmem, by rw [htext, List.append_assoc], hends, ?_⟩
  have hmore : startsVersion (c :: tail ++ more) = false := by
    unfold startsVersion
    split
    next heq => exact absurd (List.cons.inj heq).1 hhyphen
    next => rfl
  rw [afterVersion_of_not_startsVersion hmore,
    continuesStatement_append hrest, hstays]

/-- The line starts with a keyword and a version mark, but goes on like a
statement about a node. -/
def isWithdrawn (line : List Char) : Bool :=
  !opensLine line && all.any fun keyword =>
    (after? keyword (line.dropWhile isBlank)).any startsVersion

theorem isWithdrawn_eq_true_iff {line : List Char} :
    isWithdrawn line = true ↔
      opensLine line = false ∧ ∃ keyword ∈ all, ∃ rest,
        line.dropWhile isBlank = keyword ++ rest ∧
          startsVersion rest = true := by
  simp only [isWithdrawn, Bool.and_eq_true, Bool.not_eq_true',
    List.any_eq_true, Option.any_eq_true, after?_eq_some_iff]

theorem dropWhile_isBlank_append {line keyword rest : List Char}
    (h : opening? (line.dropWhile isBlank) = some (keyword, rest))
    (more : List Char) :
    (line ++ more).dropWhile isBlank = keyword ++ (rest ++ more) := by
  obtain ⟨hmem, hline, -⟩ := opening?_eq_some_iff.mp h
  rw [List.dropWhile_append, hline]
  simp [ne_nil_of_mem hmem]

theorem takeWhile_isBlank_append {line keyword rest : List Char}
    (h : opening? (line.dropWhile isBlank) = some (keyword, rest))
    (more : List Char) :
    (line ++ more).takeWhile isBlank = line.takeWhile isBlank := by
  have hwhole : line.takeWhile isBlank ++ (keyword ++ rest) = line := by
    rw [← (opening?_eq_some_iff.mp h).2.1, List.takeWhile_append_dropWhile]
  have hlength := congrArg List.length hwhole
  have hpos := List.length_pos_of_ne_nil
    (ne_nil_of_mem (opening?_eq_some_iff.mp h).1)
  rw [List.length_append, List.length_append] at hlength
  rw [List.takeWhile_append, if_neg (by omega)]

/-- A line that opens a diagram still does so when more of it is known, unless
it is withdrawn. -/
theorem opening?_append_of_not_isWithdrawn {line keyword rest : List Char}
    (h : opening? (line.dropWhile isBlank) = some (keyword, rest))
    (hrest : ∃ c ∈ rest, isBlank c = false) {more : List Char}
    (hstays : isWithdrawn (line ++ more) = false) :
    opening? ((line ++ more).dropWhile isBlank) =
      some (keyword, rest ++ more) := by
  obtain ⟨hmem, hline, -⟩ := opening?_eq_some_iff.mp h
  have hwhole := dropWhile_isBlank_append h more
  cases hversion : startsVersion rest with
  | false =>
      rw [hline] at h
      rw [hwhole, ← List.append_assoc]
      exact opening?_append h hrest hversion more
  | true =>
      have hmark : startsVersion (rest ++ more) = true := by
        obtain ⟨d, tail, rfl, hd⟩ := startsVersion_eq_true_iff.mp hversion
        exact hd
      have hopens : opensLine (line ++ more) = true := by
        by_contra hnot
        have := isWithdrawn_eq_true_iff.mpr
          ⟨Bool.eq_false_iff.mpr hnot, keyword, hmem, _, hwhole, hmark⟩
        rw [hstays] at this
        exact Bool.noConfusion this
      rw [opensLine, hwhole, opening?_keyword hmem] at hopens
      rw [hwhole, opening?_keyword hmem]
      split at hopens
      next hends => rw [if_pos hends]
      next => exact Bool.noConfusion hopens

/-- Right behind its version mark the line would open a diagram. -/
theorem opening?_version {keyword : List Char} (h : keyword ∈ all) {d : Char}
    (hd : isDigit d = true) :
    opening? (keyword ++ ['-', 'v', d]) = some (keyword, ['-', 'v', d]) := by
  rw [opening?_keyword h]
  simp [afterVersion, hd, endsWord, continuesStatement, isWordChar]

section Withdrawal

variable {keyword digits : List Char} {d c : Char}

theorem opening?_version_word (hmem : keyword ∈ all)
    (hdigits : ∀ x ∈ digits, isDigit x = true) (hdigit : isDigit c = false)
    (hword : isWordChar c = true) (more : List Char) :
    opening? (keyword ++ '-' :: 'v' :: d :: (digits ++ c :: more)) = none := by
  have hversion : afterVersion ('-' :: 'v' :: d :: (digits ++ c :: more)) =
      '-' :: 'v' :: d :: (digits ++ c :: more) := by
    simp [afterVersion, List.dropWhile_append_of_pos hdigits, hdigit, endsWord,
      hword]
  rw [opening?_keyword hmem, hversion]
  simp [continuesStatement, isBlank, continuations]

theorem opening?_version_statement {blanks : List Char} (hmem : keyword ∈ all)
    (hd : isDigit d = true) (hdigits : ∀ x ∈ digits, isDigit x = true)
    (hblanks : ∀ x ∈ blanks, isBlank x = true) (hc : c ∈ continuations)
    (more : List Char) :
    opening? (keyword ++ '-' :: 'v' :: d :: (digits ++ (blanks ++ c :: more))) =
      none := by
  obtain ⟨hwhite, hdigit, hword⟩ := of_mem_continuations hc
  have hstart : ∀ x ∈ (blanks ++ c :: more).head?,
      isDigit x = false ∧ isWordChar x = false := by
    intro x hx
    cases blanks with
    | nil =>
        obtain rfl : c = x := by simpa using hx
        exact ⟨hdigit, hword⟩
    | cons blank blanks =>
        obtain rfl : blank = x := by simpa using hx
        rcases Bool.or_eq_true_iff.mp (hblanks blank List.mem_cons_self)
          with h | h <;> rw [beq_iff_eq.mp h] <;> decide
  have hdrop : (digits ++ (blanks ++ c :: more)).dropWhile isDigit =
      blanks ++ c :: more := by
    rw [List.dropWhile_append_of_pos hdigits, List.dropWhile_eq_self_iff]
    intro hlength
    rw [(hstart _ (List.head?_eq_getElem? ▸ List.getElem?_eq_getElem hlength)).1]
    exact Bool.noConfusion
  have hends : endsWord (blanks ++ c :: more) = true := by
    cases htext : blanks ++ c :: more with
    | nil => rfl
    | cons x text => rw [endsWord, (hstart x (by simp [htext])).2, Bool.not_false]
  have hversion : afterVersion
      ('-' :: 'v' :: d :: (digits ++ (blanks ++ c :: more))) =
        blanks ++ c :: more := by
    simp [afterVersion, hdrop, hends, hd]
  rw [opening?_keyword hmem, hversion, continuesStatement,
    List.dropWhile_append_of_pos hblanks]
  have hblank : isBlank c = false := by
    by_contra h
    rw [isWhiteSpace_of_isBlank (by simpa using h)] at hwhite
    exact Bool.noConfusion hwhite
  simp [hblank, hc]

end Withdrawal

theorem exists_first?_version {above : List (List Char)}
    {blanks keyword : List Char} {d : Char}
    (habove : ∀ line ∈ above, opensLine line = false)
    (hbreaks : ∀ line ∈ above, '\n' ∉ line)
    (hbreak : '\n' ∉ blanks ++ (keyword ++ ['-', 'v', d]))
    (hblanks : ∀ c ∈ blanks, isBlank c = true) (hmem : keyword ∈ all)
    (hd : isDigit d = true) :
    ∃ before,
      first? (preceding above ++ (blanks ++ (keyword ++ ['-', 'v', d]))) =
        some ⟨before, keyword, ['-', 'v', d]⟩ := by
  have hlines : lines (preceding above ++
      (blanks ++ (keyword ++ ['-', 'v', d]))) =
        above ++ (blanks ++ (keyword ++ ['-', 'v', d])) :: [] := by
    rw [lines_preceding_append hbreaks, lines, List.splitOn_eq_singleton hbreak]
  have hopening : opening?
      ((blanks ++ (keyword ++ ['-', 'v', d])).dropWhile isBlank) =
        some (keyword, ['-', 'v', d]) := by
    rw [List.dropWhile_append_of_pos hblanks, dropWhile_isBlank_keyword hmem]
    exact opening?_version hmem hd
  exact ⟨_, first?_of_lines hlines habove hopening⟩

theorem ne_backquote_of_mem_version {keyword stretch : List Char} {d : Char}
    (hmem : keyword ∈ all) (hd : isDigit d = true)
    (hticks : ∀ c ∈ stretch, c ≠ '`') :
    ∀ c ∈ keyword ++ '-' :: 'v' :: d :: stretch, c ≠ '`' := by
  intro c hc
  simp only [List.mem_append, List.mem_cons] at hc
  rcases hc with hc | rfl | rfl | rfl | hc
  · exact ne_backquote_of_mem hmem hc
  · decide
  · decide
  · rintro rfl
    exact absurd hd (by decide)
  · exact hticks c hc

/-- Some character makes sure that the line does not open a diagram, whatever
follows it. -/
theorem exists_withdrawal {keyword tail : List Char} {d : Char}
    (hmem : keyword ∈ all) (hd : isDigit d = true)
    (h : opening? (keyword ++ '-' :: 'v' :: d :: tail) = none) :
    ∃ stretch c rest, tail = stretch ++ c :: rest ∧ isWhiteSpace c = false ∧
      (∀ x ∈ stretch ++ [c], x ≠ '`') ∧ ∀ more,
        opening? (keyword ++ '-' :: 'v' :: d :: (stretch ++ c :: more)) =
          none := by
  let digits := tail.takeWhile isDigit
  let after := tail.dropWhile isDigit
  have htail : tail = digits ++ after :=
    List.takeWhile_append_dropWhile.symm
  have hdigits : ∀ x ∈ digits, isDigit x = true :=
    fun x hx => List.mem_takeWhile_imp hx
  have hticks : ∀ x ∈ digits, x ≠ '`' := by
    rintro x hx rfl
    exact absurd (hdigits _ hx) (by decide)
  cases hends : endsWord after with
  | false =>
      -- The version mark is the start of a longer word.
      obtain ⟨c, rest, hafter⟩ : ∃ c rest, after = c :: rest := by
        apply List.exists_cons_of_ne_nil
        intro hnil
        rw [hnil] at hends
        exact Bool.noConfusion hends
      rw [hafter, endsWord, Bool.not_eq_false'] at hends
      have hdigit : isDigit c = false := by
        have hhead := List.head?_dropWhile_not isDigit tail
        rw [show tail.dropWhile isDigit = c :: rest from hafter] at hhead
        simpa using hhead
      refine ⟨digits, c, rest, by rw [← hafter]; exact htail, ?_, ?_, ?_⟩
      · by_contra hwhite
        rw [Bool.not_eq_false] at hwhite
        rw [isWordChar_of_isWhiteSpace hwhite] at hends
        exact Bool.noConfusion hends
      · intro x hx
        rcases List.mem_append.mp hx with hx | hx
        · exact hticks x hx
        · rintro rfl
          rw [← List.mem_singleton.mp hx] at hends
          exact absurd hends (by decide)
      · exact opening?_version_word hmem hdigits hdigit hends
  | true =>
      -- The version mark stands by itself, and a statement goes on behind it.
      have hversion : afterVersion ('-' :: 'v' :: d :: tail) = after := by
        have : endsWord (tail.dropWhile isDigit) = true := hends
        simp only [afterVersion, hd, this, Bool.and_self, if_true]
        rfl
      have hhyphen : endsWord ('-' :: 'v' :: d :: tail) = true := by
        change (!isWordChar '-') = true
        decide
      rw [opening?_keyword hmem, hversion, hhyphen, Bool.true_and] at h
      have hgoes : continuesStatement after = true := by
        by_contra hnot
        simp [hnot] at h
      rw [continuesStatement] at hgoes
      split at hgoes
      next => exact Bool.noConfusion hgoes
      next c rest hc =>
        have hmemc : c ∈ continuations := List.contains_iff_mem.mp hgoes
        have hafter : after = after.takeWhile isBlank ++ c :: rest := by
          rw [← hc, List.takeWhile_append_dropWhile]
        have hblanks : ∀ x ∈ after.takeWhile isBlank, isBlank x = true :=
          fun x hx => List.mem_takeWhile_imp hx
        refine ⟨digits ++ after.takeWhile isBlank, c, rest, ?_, ?_, ?_, ?_⟩
        · rw [List.append_assoc, ← hafter]
          exact htail
        · exact (of_mem_continuations hmemc).1
        · simp only [List.mem_append, List.mem_singleton]
          rintro x ((hx | hx) | rfl)
          · exact hticks x hx
          · rintro rfl
            exact absurd (hblanks _ hx) (by decide)
          · rintro rfl
            exact absurd hmemc (by decide)
        · intro more
          rw [List.append_assoc]
          exact opening?_version_statement hmem hd hdigits hblanks hmemc more

end Flowchart.Keyword
