import Flowchart.Proofs.Keywords

/-!
# Keywords line by line

A keyword opens a diagram by what stands on its line alone.  So the keywords of
two texts with a line feed between them are those of the one and those of the
other, and text behind a line break changes nothing that has been found before
it.
-/

namespace Flowchart.Keyword

open Text

/-! ### Where diagrams open -/

/-- A text cut around a keyword that opens a diagram: lines above, indentation,
the keyword, the rest of its line, and lines below.  The keyword ends as a word,
and the rest of the line does not go on like a statement. -/
structure IsOpening (text above indent keyword rest below : List Char) :
    Prop where
  text_eq : text = above ++ (indent ++ (keyword ++ (rest ++ below)))
  startsLine : above = [] ∨ ['\n'] <:+ above
  blank : ∀ c ∈ indent, isBlank c = true
  keyword_mem : keyword ∈ all
  endsWord : endsWord rest = true
  stays : continuesStatement (afterVersion rest) = false
  inLine : '\n' ∉ rest
  endsLine : below = [] ∨ ['\n'] <+: below

/-- A diagram opens at the offset. -/
def OpensAt (text : List Char) (offset : ℕ) : Prop :=
  ∃ above indent keyword rest below,
    IsOpening text above indent keyword rest below ∧
      offset = byteLength (above ++ indent)

/-- A line feed stands between the two offsets, of which the first one comes
first. -/
def BreaksBetween (text : List Char) (first second : ℕ) : Prop :=
  ∃ before between after, text = before ++ (between ++ after) ∧
    '\n' ∈ between ∧ first = byteLength before ∧
      second = byteLength (before ++ between)

/-! ### Offsets in consecutive lines -/

/-- The offsets of the keywords in consecutive lines, the first of which starts
at the given offset. -/
def offsets (start : ℕ) : List (List Char) → List ℕ
  | [] => []
  | line :: below =>
    (if opensLine line then [start + byteLength (line.takeWhile isBlank)]
      else []) ++
      offsets (start + byteLength (line ++ ['\n'])) below

theorem map_position_inLines (before : List Char) (lines : List (List Char)) :
    (inLines before lines).map Occurrence.position =
      offsets (byteLength before) lines := by
  induction lines generalizing before with
  | nil => rfl
  | cons line below ih =>
      rw [inLines, List.map_append, ih, offsets, List.append_assoc,
        byteLength_append before]
      congr 1
      cases hopening : opening? (line.dropWhile isBlank) with
      | none => simp [inLine?, opensLine, hopening]
      | some parts =>
          simp [inLine?, opensLine, hopening, Occurrence.position]

theorem positions_eq_offsets (text : List Char) :
    positions text = offsets 0 (lines text) :=
  map_position_inLines [] (lines text)

theorem offsets_append (start : ℕ) (above below : List (List Char)) :
    offsets start (above ++ below) =
      offsets start above ++
        offsets (start + byteLength (preceding above)) below := by
  induction above generalizing start with
  | nil => rfl
  | cons line above ih =>
      have hlength : byteLength (preceding (line :: above)) =
          byteLength (line ++ ['\n']) + byteLength (preceding above) := by
        rw [preceding, List.flatMap_cons, byteLength_append, ← preceding]
      rw [List.cons_append, offsets, offsets, ih, List.append_assoc, hlength,
        Nat.add_assoc]

theorem offsets_add (start more : ℕ) (lines : List (List Char)) :
    offsets (start + more) lines = (offsets start lines).map (· + more) := by
  induction lines generalizing start with
  | nil => rfl
  | cons line below ih =>
      rw [offsets, offsets, List.map_append, ← ih,
        Nat.add_right_comm start more (byteLength (line ++ ['\n']))]
      congr 1
      split
      next => rw [List.map_singleton, Nat.add_right_comm]
      next => rfl

theorem mem_offsets_iff {start offset : ℕ} {lines : List (List Char)} :
    offset ∈ offsets start lines ↔
      ∃ above line below, lines = above ++ line :: below ∧
        opensLine line = true ∧
        offset =
          start + byteLength (preceding above ++ line.takeWhile isBlank) := by
  constructor
  · intro h
    induction lines generalizing start with
    | nil => exact absurd h List.not_mem_nil
    | cons line below ih =>
        rw [offsets, List.mem_append] at h
        rcases h with hhere | hbelow
        · rw [List.mem_ite_nil_right, List.mem_singleton] at hhere
          exact ⟨[], line, below, rfl, hhere.1, hhere.2⟩
        · obtain ⟨above, other, rest, rfl, hopens, rfl⟩ := ih hbelow
          refine ⟨line :: above, other, rest, rfl, hopens, ?_⟩
          simp only [preceding, List.flatMap_cons, byteLength_append]
          omega
  · rintro ⟨above, line, below, rfl, hopens, rfl⟩
    rw [offsets_append, offsets, if_pos hopens,
      byteLength_append (preceding above), ← Nat.add_assoc, List.mem_append]
    exact .inr List.mem_cons_self

/-! ### Lines of two texts -/

theorem lines_append_newline (first second : List Char) :
    lines (first ++ '\n' :: second) = lines first ++ lines second :=
  List.splitOn_append_cons_self first second

theorem preceding_lines (text : List Char) :
    preceding (lines text) = text ++ ['\n'] := by
  have hwhole : ['\n'].intercalate (lines text ++ [[]]) = text ++ ['\n'] := by
    have hlines : lines (text ++ ['\n']) = lines text ++ [[]] :=
      lines_append_newline text []
    rw [← hlines]
    exact List.intercalate_splitOn '\n'
  rw [← hwhole, intercalate_append_eq]
  simp [following]

theorem positions_append_newline (first second : List Char) :
    positions (first ++ '\n' :: second) =
      positions first ++
        (positions second).map (· + (byteLength first + 1)) := by
  have hlength : byteLength (preceding (lines first)) = byteLength first + 1 := by
    rw [preceding_lines, byteLength_append]
    rfl
  rw [positions_eq_offsets, lines_append_newline, offsets_append, hlength,
    offsets_add, ← positions_eq_offsets, ← positions_eq_offsets]

/-! ### Keywords and their lines -/

theorem exists_eq_preceding {above : List Char}
    (h : above = [] ∨ ['\n'] <:+ above) :
    ∃ upper, above = preceding upper ∧ ∀ line ∈ upper, '\n' ∉ line := by
  rcases h with rfl | ⟨front, rfl⟩
  · exact ⟨[], rfl, by simp⟩
  · exact ⟨lines front, (preceding_lines front).symm,
      fun line => not_mem_of_mem_lines⟩

theorem startsLine_preceding (upper : List (List Char)) :
    preceding upper = [] ∨ ['\n'] <:+ preceding upper := by
  rcases List.eq_nil_or_concat upper with rfl | ⟨above, line, rfl⟩
  · exact .inl rfl
  · refine .inr ⟨preceding above ++ line, ?_⟩
    simp [preceding]

theorem endsLine_following (lower : List (List Char)) :
    following lower = [] ∨ ['\n'] <+: following lower := by
  cases lower with
  | nil => exact .inl rfl
  | cons line lower => exact .inr ⟨line ++ following lower, rfl⟩

/-- A line that ends where the lines below start is a line of the whole text. -/
theorem exists_lines_eq {line below : List Char} (hline : '\n' ∉ line)
    (h : below = [] ∨ ['\n'] <+: below) :
    ∃ lower, lines (line ++ below) = line :: lower := by
  obtain ⟨first, lower, hbelow, hwhole⟩ := lines_append_of_not_mem hline below
  have hfirst : first = [] := by
    rcases h with rfl | ⟨rest, rfl⟩
    · exact (List.cons.inj hbelow).1.symm
    · have hbreak := lines_append_newline [] rest
      exact (List.cons.inj (hbelow.symm.trans hbreak)).1
  exact ⟨lower, by rw [hwhole, hfirst, List.append_nil]⟩

theorem opensLine_eq_true_iff {line : List Char} :
    opensLine line = true ↔ ∃ keyword ∈ all, ∃ rest,
      line = line.takeWhile isBlank ++ (keyword ++ rest) ∧
        endsWord rest = true ∧ continuesStatement (afterVersion rest) = false := by
  rw [opensLine, Option.isSome_iff_exists]
  constructor
  · rintro ⟨⟨keyword, rest⟩, hopening⟩
    obtain ⟨hmem, hline, hends, hstays⟩ := opening?_eq_some_iff.mp hopening
    refine ⟨keyword, hmem, rest, ?_, hends, hstays⟩
    rw [← hline, List.takeWhile_append_dropWhile]
  · rintro ⟨keyword, hmem, rest, hline, hends, hstays⟩
    refine ⟨(keyword, rest), opening?_eq_some_iff.mpr ⟨hmem, ?_, hends, hstays⟩⟩
    have hsplit : line.takeWhile isBlank ++ line.dropWhile isBlank = line :=
      List.takeWhile_append_dropWhile
    exact List.append_cancel_left (hsplit.trans hline)

theorem takeWhile_isBlank_keyword {keyword : List Char} (h : keyword ∈ all)
    (rest : List Char) : (keyword ++ rest).takeWhile isBlank = [] := by
  have hsplit := List.takeWhile_append_dropWhile
    (p := isBlank) (l := keyword ++ rest)
  rw [dropWhile_isBlank_keyword h] at hsplit
  exact List.append_left_eq_self.mp hsplit

theorem exists_isOpening {text line : List Char} {upper lower : List (List Char)}
    (hlines : lines text = upper ++ line :: lower)
    (hopens : opensLine line = true) :
    ∃ keyword rest, IsOpening text (preceding upper) (line.takeWhile isBlank)
      keyword rest (following lower) := by
  obtain ⟨keyword, hmem, rest, hline, hends, hstays⟩ :=
    opensLine_eq_true_iff.mp hopens
  have hnone : '\n' ∉ line := by
    apply not_mem_of_mem_lines
    rw [hlines]
    exact List.mem_append_right upper List.mem_cons_self
  refine ⟨keyword, rest, ?_, startsLine_preceding upper,
    fun c hc => List.mem_takeWhile_imp hc, hmem, hends, hstays, ?_,
    endsLine_following lower⟩
  · rw [eq_preceding_append hlines]
    conv_lhs => rw [hline]
    simp only [List.append_assoc]
  · intro hbreak
    apply hnone
    rw [hline]
    simp [hbreak]

namespace IsOpening

variable {text above indent keyword rest below : List Char}

/-- What stands from the indentation to the end of the line is a line of the
text. -/
theorem exists_lines (h : IsOpening text above indent keyword rest below) :
    ∃ upper lower, above = preceding upper ∧
      lines text = upper ++ (indent ++ (keyword ++ rest)) :: lower := by
  obtain ⟨upper, habove, hupper⟩ := exists_eq_preceding h.startsLine
  have hnone : '\n' ∉ indent ++ (keyword ++ rest) := by
    simp only [List.mem_append, not_or]
    refine ⟨fun hc => ?_, fun hc => ?_, h.inLine⟩
    · exact absurd (h.blank _ hc) (by decide)
    · exact absurd (isAlpha_of_mem h.keyword_mem hc) (by decide)
  obtain ⟨lower, hlower⟩ := exists_lines_eq hnone h.endsLine
  refine ⟨upper, lower, habove, ?_⟩
  rw [h.text_eq, habove, ← hlower, ← lines_preceding_append hupper]
  simp only [List.append_assoc]

theorem takeWhile_isBlank (h : IsOpening text above indent keyword rest below) :
    (indent ++ (keyword ++ rest)).takeWhile isBlank = indent := by
  rw [List.takeWhile_append_of_pos h.blank,
    takeWhile_isBlank_keyword h.keyword_mem, List.append_nil]

theorem opensLine (h : IsOpening text above indent keyword rest below) :
    opensLine (indent ++ (keyword ++ rest)) = true := by
  rw [opensLine_eq_true_iff, h.takeWhile_isBlank]
  exact ⟨keyword, h.keyword_mem, rest, rfl, h.endsWord, h.stays⟩

end IsOpening

theorem mem_positions_iff {text : List Char} {offset : ℕ} :
    offset ∈ positions text ↔ OpensAt text offset := by
  rw [positions_eq_offsets, mem_offsets_iff]
  constructor
  · rintro ⟨upper, line, lower, hlines, hopens, rfl⟩
    obtain ⟨keyword, rest, hopening⟩ := exists_isOpening hlines hopens
    exact ⟨_, _, keyword, rest, _, hopening, Nat.zero_add _⟩
  · rintro ⟨above, indent, keyword, rest, below, h, rfl⟩
    obtain ⟨upper, lower, rfl, hlines⟩ := h.exists_lines
    refine ⟨upper, _, lower, hlines, h.opensLine, ?_⟩
    rw [h.takeWhile_isBlank, Nat.zero_add]

/-- Between what stands behind the indentation of a line and of one below it are
the rest of the first line with its line feed, the lines behind it, and the
second indentation. -/
theorem breaksBetween_indents (front line other : List Char)
    (above below : List (List Char)) :
    BreaksBetween (front ++ ['\n'].intercalate (line :: (above ++ other :: below)))
      (byteLength front + byteLength (line.takeWhile isBlank))
      (byteLength front + byteLength (line ++ ['\n']) +
        byteLength (preceding above ++ other.takeWhile isBlank)) := by
  have hline : line ++ ['\n'] =
      line.takeWhile isBlank ++ (line.dropWhile isBlank ++ ['\n']) := by
    rw [← List.append_assoc, List.takeWhile_append_dropWhile]
  have hother : other ++ following below =
      other.takeWhile isBlank ++
        (other.dropWhile isBlank ++ following below) := by
    rw [← List.append_assoc, List.takeWhile_append_dropWhile]
  refine ⟨front ++ line.takeWhile isBlank,
    line.dropWhile isBlank ++ ['\n'] ++
      (preceding above ++ other.takeWhile isBlank),
    other.dropWhile isBlank ++ following below, ?_, by simp,
    (byteLength_append _ _).symm, ?_⟩
  · rw [← List.cons_append, intercalate_append_eq, preceding,
      List.flatMap_cons, ← preceding, hline, hother]
    simp only [List.append_assoc]
  · rw [hline]
    simp only [byteLength_append, Nat.add_assoc]

theorem pairwise_offsets (front : List Char) (lines : List (List Char)) :
    (offsets (byteLength front) lines).Pairwise
      (BreaksBetween (front ++ ['\n'].intercalate lines)) := by
  induction lines generalizing front with
  | nil => exact .nil
  | cons line below ih =>
      rw [offsets, List.pairwise_append]
      refine ⟨?_, ?_, ?_⟩
      · split
        next => exact List.pairwise_singleton _ _
        next => exact .nil
      · rw [← byteLength_append]
        cases below with
        | nil => exact .nil
        | cons next below =>
            rw [List.intercalate_cons_cons]
            simpa only [List.append_assoc] using ih (front ++ (line ++ ['\n']))
      · intro first hfirst second hsecond
        rw [List.mem_ite_nil_right, List.mem_singleton] at hfirst
        obtain ⟨above, other, rest, rfl, -, rfl⟩ := mem_offsets_iff.mp hsecond
        rw [hfirst.2]
        exact breaksBetween_indents front line other above rest

/-- The keywords of a text are found line by line: those behind a line feed do
not depend on the text before it, nor the other way round.  Each of them opens a
diagram, and no two stand on one line. -/
theorem positions_line_by_line :
    (∀ first second : List Char,
      positions (first ++ '\n' :: second) =
        positions first ++
          (positions second).map (· + (byteLength first + 1))) ∧
    ∀ text : List Char,
      (∀ offset, offset ∈ positions text ↔ OpensAt text offset) ∧
        (positions text).Pairwise (BreaksBetween text) := by
  refine ⟨positions_append_newline, fun text => ⟨fun offset =>
    mem_positions_iff, ?_⟩⟩
  have hpairwise := pairwise_offsets [] (lines text)
  have hwhole : ['\n'].intercalate (lines text) = text :=
    List.intercalate_splitOn '\n'
  rw [List.nil_append, hwhole] at hpairwise
  rw [positions_eq_offsets]
  exact hpairwise

/-- A keyword at the start, one behind a tab, and one that is the id of a
node. -/
example : positions "graph TD\n\tpie\npie --> b".toList = [0, 10] := by
  decide +kernel

end Flowchart.Keyword
