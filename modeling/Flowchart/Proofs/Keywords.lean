import Flowchart.Proofs.Search
import Flowchart.Source.Keyword
import Mathlib.Data.List.TakeWhile

/-!
# Lines that open diagrams

Whether a line opens a diagram depends on that line alone, so the occurrences
of keywords in a text are those in its lines, one at most in each.
-/

namespace Flowchart.Keyword

open Text

theorem isAlpha_of_mem {keyword : List Char} (h : keyword ∈ all) {c : Char}
    (hc : c ∈ keyword) : c.isAlpha = true := by
  have hall : ∀ keyword ∈ all, keyword.all Char.isAlpha = true := by decide
  exact List.all_eq_true.mp (hall keyword h) c hc

theorem ne_nil_of_mem {keyword : List Char} (h : keyword ∈ all) :
    keyword ≠ [] := by
  have hall : ∀ keyword ∈ all, keyword ≠ [] := by decide
  exact hall keyword h

theorem ne_backquote_of_mem {keyword : List Char} (h : keyword ∈ all)
    {c : Char} (hc : c ∈ keyword) : c ≠ '`' := by
  rintro rfl
  exact absurd (isAlpha_of_mem h hc) (by decide)

theorem exists_cons_of_mem {keyword : List Char} (h : keyword ∈ all) :
    ∃ c rest, keyword = c :: rest ∧ isWhiteSpace c = false := by
  have hall : ∀ keyword ∈ all,
      keyword.head?.any (!isWhiteSpace ·) = true := by decide
  have hhead := hall keyword h
  cases keyword with
  | nil => exact Bool.noConfusion hhead
  | cons c rest => exact ⟨c, rest, rfl, by simpa using hhead⟩

theorem dropWhile_isBlank_keyword {keyword : List Char} (h : keyword ∈ all)
    (rest : List Char) :
    (keyword ++ rest).dropWhile isBlank = keyword ++ rest := by
  have hall : ∀ keyword ∈ all, keyword.head?.any (!isBlank ·) = true := by
    decide
  have hhead := hall keyword h
  cases keyword with
  | nil => exact Bool.noConfusion hhead
  | cons c letters =>
      rw [List.cons_append, List.dropWhile_cons_of_neg (by simpa using hhead)]

theorem of_mem_continuations {c : Char} (h : c ∈ continuations) :
    isWhiteSpace c = false ∧ isDigit c = false ∧ isWordChar c = false := by
  have hall : continuations.all fun c =>
      !isWhiteSpace c && (!isDigit c && !isWordChar c) := by
    decide
  simpa using List.all_eq_true.mp hall c h

theorem eq_of_isPrefix {first second : List Char} (hfirst : first ∈ all)
    (hsecond : second ∈ all) (h : first <+: second) : first = second := by
  have hall : ∀ first ∈ all, ∀ second ∈ all, first <+: second →
      first = second := by decide
  exact hall first hfirst second hsecond h

theorem opening?_eq_some_iff {text keyword rest : List Char} :
    opening? text = some (keyword, rest) ↔
      keyword ∈ all ∧ text = keyword ++ rest ∧ endsWord rest = true ∧
        continuesStatement (afterVersion rest) = false := by
  have hsound : ∀ {keyword rest}, opening? text = some (keyword, rest) →
      keyword ∈ all ∧ text = keyword ++ rest ∧ endsWord rest = true ∧
        continuesStatement (afterVersion rest) = false := by
    intro keyword rest h
    obtain ⟨word, hword, hrest⟩ := List.exists_of_findSome?_eq_some h
    obtain ⟨more, hmore, hif⟩ := Option.bind_eq_some_iff.mp hrest
    split at hif
    next hends =>
      obtain ⟨rfl, rfl⟩ := Prod.mk.inj (Option.some.inj hif)
      rw [Bool.and_eq_true, Bool.not_eq_true'] at hends
      exact ⟨hword, after?_eq_some_iff.mp hmore, hends⟩
    next => simp at hif
  refine ⟨hsound, ?_⟩
  rintro ⟨hmem, htext, hends, hstays⟩
  have hsome : (opening? text).isSome := by
    rw [opening?, List.findSome?_isSome_iff]
    refine ⟨keyword, hmem, ?_⟩
    rw [htext, after?_append]
    simp [hends, hstays]
  obtain ⟨⟨other, more⟩, hother⟩ := Option.isSome_iff_exists.mp hsome
  obtain ⟨hmem', htext', -⟩ := hsound hother
  have hsame : other = keyword := by
    rcases List.prefix_or_prefix_of_prefix
      (⟨more, htext'.symm⟩ : other <+: text) ⟨rest, htext.symm⟩ with h | h
    · exact eq_of_isPrefix hmem' hmem h
    · exact (eq_of_isPrefix hmem hmem' h).symm
  subst hsame
  rw [hother, List.append_cancel_left (htext'.symm.trans htext)]

theorem opening?_keyword {keyword : List Char} (h : keyword ∈ all)
    (rest : List Char) :
    opening? (keyword ++ rest) =
      if endsWord rest && !continuesStatement (afterVersion rest) then
        some (keyword, rest)
      else none := by
  split
  next hends =>
    rw [Bool.and_eq_true, Bool.not_eq_true'] at hends
    exact opening?_eq_some_iff.mpr ⟨h, rfl, hends⟩
  next hends =>
    rw [Option.eq_none_iff_forall_ne_some]
    rintro ⟨other, more⟩ hother
    obtain ⟨hmem, htext, hword, hstays⟩ := opening?_eq_some_iff.mp hother
    have hsame : other = keyword := by
      rcases List.prefix_or_prefix_of_prefix
        (⟨more, htext.symm⟩ : other <+: keyword ++ rest)
        (List.prefix_append keyword rest) with hle | hle
      · exact eq_of_isPrefix hmem h hle
      · exact (eq_of_isPrefix h hmem hle).symm
    subst hsame
    rw [List.append_cancel_left htext, hword, hstays] at hends
    exact hends rfl

/-- The line opens a diagram. -/
def opensLine (line : List Char) : Bool :=
  (opening? (line.dropWhile isBlank)).isSome

/-! ### Occurrences and lines -/

theorem intercalate_cons_eq (line : List Char) (below : List (List Char)) :
    ['\n'].intercalate (line :: below) = line ++ following below := by
  induction below generalizing line with
  | nil => simp [following]
  | cons next below ih =>
      rw [List.intercalate_cons_cons, ih next]
      simp [following]

theorem inLine?_eq_some_iff {before line : List Char}
    {below : List (List Char)} {occurrence : Occurrence} :
    inLine? before line below = some occurrence ↔
      ∃ keyword rest, opening? (line.dropWhile isBlank) = some (keyword, rest) ∧
        occurrence =
          ⟨before ++ line.takeWhile isBlank, keyword,
            rest ++ following below⟩ := by
  rw [inLine?, Option.map_eq_some_iff]
  constructor
  · rintro ⟨⟨keyword, rest⟩, hopening, rfl⟩
    exact ⟨keyword, rest, hopening, rfl⟩
  · rintro ⟨keyword, rest, hopening, rfl⟩
    exact ⟨(keyword, rest), hopening, rfl⟩

theorem isSome_inLine? (before line : List Char)
    (below : List (List Char)) :
    (inLine? before line below).isSome = opensLine line := by
  simp [inLine?, opensLine]

/-- The text is cut in two where the keyword stands. -/
theorem inLine?_split {before line : List Char} {below : List (List Char)}
    {occurrence : Occurrence}
    (h : inLine? before line below = some occurrence) :
    occurrence.keyword ∈ all ∧
      occurrence.before ++ occurrence.onwards =
        before ++ ['\n'].intercalate (line :: below) := by
  obtain ⟨keyword, rest, hopening, rfl⟩ := inLine?_eq_some_iff.mp h
  obtain ⟨hmem, hline, -⟩ := opening?_eq_some_iff.mp hopening
  refine ⟨hmem, ?_⟩
  rw [intercalate_cons_eq]
  conv_rhs => rw [← List.takeWhile_append_dropWhile (p := isBlank) (l := line)]
  simp [Occurrence.onwards, hline]

theorem mem_inLines {before : List Char} {lines : List (List Char)}
    {occurrence : Occurrence} (h : occurrence ∈ inLines before lines) :
    occurrence.keyword ∈ all ∧
      occurrence.before ++ occurrence.onwards =
        before ++ ['\n'].intercalate lines := by
  induction lines generalizing before with
  | nil => simp [inLines] at h
  | cons line below ih =>
      rw [inLines, List.mem_append, Option.mem_toList] at h
      rcases h with h | h
      · exact inLine?_split h
      · obtain ⟨hmem, hsplit⟩ := ih h
        refine ⟨hmem, ?_⟩
        cases below with
        | nil => simp [inLines] at h
        | cons next below => simp [hsplit]

theorem mem_occurrences {text : List Char} {occurrence : Occurrence}
    (h : occurrence ∈ occurrences text) :
    occurrence.keyword ∈ all ∧
      occurrence.before ++ occurrence.onwards = text := by
  have hlines := mem_inLines h
  rwa [lines, List.intercalate_splitOn, List.nil_append] at hlines

/-! ### The first line that opens a diagram -/

/-- The lines as another line follows them. -/
def preceding (lines : List (List Char)) : List Char :=
  lines.flatMap (· ++ ['\n'])

theorem not_mem_of_mem_lines {text line : List Char} (h : line ∈ lines text) :
    '\n' ∉ line := by
  induction text generalizing line with
  | nil =>
      obtain rfl : line = [] := by simpa [lines] using h
      simp
  | cons c text ih =>
      rw [lines, List.splitOn_cons_eq_if_modifyHead] at h
      obtain ⟨first, below, htext⟩ :=
        List.exists_cons_of_ne_nil (List.splitOn_ne_nil '\n' text)
      rw [lines, htext] at ih
      rw [htext] at h
      split at h
      next =>
        rcases List.mem_cons.mp h with rfl | h
        · simp
        · exact ih h
      next hc =>
        rcases List.mem_cons.mp h with rfl | h
        · have hfirst := ih List.mem_cons_self
          simpa [hfirst] using fun heq => hc (beq_iff_eq.mpr heq.symm)
        · exact ih (List.mem_cons_of_mem first h)

theorem lines_append_of_not_mem {line : List Char} (h : '\n' ∉ line)
    (text : List Char) :
    ∃ first below, lines text = first :: below ∧
      lines (line ++ text) = (line ++ first) :: below := by
  induction line with
  | nil =>
      obtain ⟨first, below, htext⟩ :=
        List.exists_cons_of_ne_nil (List.splitOn_ne_nil '\n' text)
      exact ⟨first, below, htext, htext⟩
  | cons c line ih =>
      rw [List.mem_cons, not_or] at h
      obtain ⟨first, below, htext, hwhole⟩ := ih h.2
      refine ⟨first, below, htext, ?_⟩
      rw [lines] at hwhole
      rw [lines, List.cons_append, List.splitOn_cons_eq_if_modifyHead, hwhole,
        if_neg (by simpa using Ne.symm h.1)]
      rfl

theorem lines_preceding_append {above : List (List Char)}
    (h : ∀ line ∈ above, '\n' ∉ line) (text : List Char) :
    lines (preceding above ++ text) = above ++ lines text := by
  induction above with
  | nil => rfl
  | cons line above ih =>
      have hline := h line List.mem_cons_self
      have hsplit : preceding (line :: above) ++ text =
          line ++ '\n' :: (preceding above ++ text) := by simp [preceding]
      rw [hsplit, lines, List.splitOn_append_cons_self_of_not_mem hline,
        ← lines, ih fun other hother => h other (List.mem_cons_of_mem line hother),
        List.cons_append]

theorem intercalate_append_eq (above : List (List Char)) (line : List Char)
    (below : List (List Char)) :
    ['\n'].intercalate (above ++ line :: below) =
      preceding above ++ (line ++ following below) := by
  induction above with
  | nil => exact intercalate_cons_eq line below
  | cons first above ih =>
      have hne : above ++ line :: below ≠ [] := by simp
      obtain ⟨next, rest, hrest⟩ := List.exists_cons_of_ne_nil hne
      rw [hrest] at ih
      rw [List.cons_append, hrest, List.intercalate_cons_cons, ih]
      simp [preceding]

theorem eq_preceding_append {text line : List Char}
    {above below : List (List Char)} (h : lines text = above ++ line :: below) :
    text = preceding above ++ (line ++ following below) := by
  rw [← intercalate_append_eq, ← h]
  exact (List.intercalate_splitOn '\n').symm

theorem mem_of_mem_lines {text line : List Char} (h : line ∈ lines text)
    {c : Char} (hc : c ∈ line) : c ∈ text := by
  obtain ⟨above, below, hlines⟩ := List.append_of_mem h
  rw [eq_preceding_append hlines]
  simp [hc]

theorem inLines_append {above : List (List Char)}
    (h : ∀ line ∈ above, opensLine line = false) (before : List Char)
    (below : List (List Char)) :
    inLines before (above ++ below) =
      inLines (before ++ preceding above) below := by
  induction above generalizing before with
  | nil => simp [preceding]
  | cons line above ih =>
      have hnone : inLine? before line (above ++ below) = none := by
        rw [← Option.isNone_iff_eq_none, ← Option.not_isSome,
          isSome_inLine?, h line List.mem_cons_self, Bool.not_false]
      rw [List.cons_append, inLines, hnone,
        ih fun other hother => h other (List.mem_cons_of_mem line hother)]
      simp [preceding]

theorem first?_of_lines {text line keyword rest : List Char}
    {above below : List (List Char)} (hlines : lines text = above ++ line :: below)
    (habove : ∀ line ∈ above, opensLine line = false)
    (hline : opening? (line.dropWhile isBlank) = some (keyword, rest)) :
    first? text =
      some ⟨preceding above ++ line.takeWhile isBlank, keyword,
        rest ++ following below⟩ := by
  rw [first?, occurrences, hlines, inLines_append habove, inLines, inLine?,
    hline]
  simp

theorem first?_cases (text : List Char) :
    (first? text = none ∧ ∀ line ∈ lines text, opensLine line = false) ∨
      ∃ above line below keyword rest,
        lines text = above ++ line :: below ∧
          (∀ line ∈ above, opensLine line = false) ∧
          opening? (line.dropWhile isBlank) = some (keyword, rest) ∧
          first? text =
            some ⟨preceding above ++ line.takeWhile isBlank, keyword,
              rest ++ following below⟩ := by
  let above := (lines text).takeWhile (!opensLine ·)
  have habove : ∀ line ∈ above, opensLine line = false := by
    intro line hline
    simpa using List.mem_takeWhile_imp hline
  have hsplit : lines text = above ++ (lines text).dropWhile (!opensLine ·) :=
    List.takeWhile_append_dropWhile.symm
  cases hbelow : (lines text).dropWhile (!opensLine ·) with
  | nil =>
      rw [hbelow, List.append_nil] at hsplit
      refine .inl ⟨?_, hsplit ▸ habove⟩
      have hnone := inLines_append habove [] []
      rw [List.append_nil, ← hsplit] at hnone
      rw [first?, occurrences, hnone]
      rfl
  | cons line below =>
      rw [hbelow] at hsplit
      have hopens : opensLine line = true := by
        have hhead := List.head?_dropWhile_not (!opensLine ·) (lines text)
        rw [hbelow] at hhead
        simpa using hhead
      obtain ⟨⟨keyword, rest⟩, hopening⟩ :=
        Option.isSome_iff_exists.mp hopens
      exact .inr ⟨above, line, below, keyword, rest, hsplit, habove, hopening,
        first?_of_lines hsplit habove hopening⟩

theorem first?_split {text : List Char} {occurrence : Occurrence}
    (h : first? text = some occurrence) :
    occurrence.keyword ∈ all ∧
      occurrence.before ++ occurrence.onwards = text :=
  mem_occurrences (List.mem_of_mem_head? h)

theorem first?_eq_none_of_not_infix {text : List Char}
    (h : ∀ keyword ∈ all, ¬ keyword <:+: text) : first? text = none := by
  rw [Option.eq_none_iff_forall_ne_some]
  intro occurrence hfirst
  obtain ⟨hmem, htext⟩ := first?_split hfirst
  apply h occurrence.keyword hmem
  rw [← htext, Occurrence.onwards]
  exact List.infix_append' _ _ _

/-! ### Text that is still growing -/

/-- Where the text grows, its last line does. -/
theorem lines_append (text more : List Char) :
    ∃ above last first below, lines text = above ++ [last] ∧
      lines more = first :: below ∧
      lines (text ++ more) = above ++ (last ++ first) :: below := by
  induction text with
  | nil =>
      obtain ⟨first, below, hmore⟩ :=
        List.exists_cons_of_ne_nil (List.splitOn_ne_nil '\n' more)
      exact ⟨[], [], first, below, rfl, hmore, hmore⟩
  | cons c text ih =>
      obtain ⟨above, last, first, below, htext, hmore, hwhole⟩ := ih
      rw [lines] at htext hwhole
      by_cases hc : c = '\n'
      · refine ⟨[] :: above, last, first, below, ?_, hmore, ?_⟩
        · simp [lines, List.splitOn_cons_eq_if_modifyHead, hc, htext]
        · simp [lines, List.splitOn_cons_eq_if_modifyHead, hc, hwhole]
      · cases above with
        | nil =>
            refine ⟨[], c :: last, first, below, ?_, hmore, ?_⟩
            · simp [lines, List.splitOn_cons_eq_if_modifyHead, hc, htext]
            · simp [lines, List.splitOn_cons_eq_if_modifyHead, hc, hwhole]
        | cons top above =>
            refine ⟨(c :: top) :: above, last, first, below, ?_, hmore, ?_⟩
            · simp [lines, List.splitOn_cons_eq_if_modifyHead, hc, htext]
            · simp [lines, List.splitOn_cons_eq_if_modifyHead, hc, hwhole]

end Flowchart.Keyword
