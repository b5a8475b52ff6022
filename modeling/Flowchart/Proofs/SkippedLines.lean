import Flowchart.Proofs.CorrespondingLines
import Flowchart.Proofs.Remarks
import Flowchart.Proofs.SeparatedStatements

/-!
# Blank lines and comments between statements

A blank line or a comment may be put in wherever no logical line goes on.  A
line further up may still have left a quote open that nothing closes: the search
for the closing line runs over the new line as well, but as that line holds no
quote and no backslash, it changes nothing behind its line feed.
-/

namespace Flowchart

open Text

namespace Fragment

/-- The line is blank, or a comment without quotes and backslashes. -/
def IsSilent (line : List Char) : Prop :=
  '\n' ∉ line ∧
    ((∀ c ∈ line, isWhiteSpace c = true) ∨
      (['%', '%'] <+: trimStart line ∧ '"' ∉ line ∧ '\\' ∉ line))

/-- No logical line of the text begins before the given byte and ends behind
it. -/
def BreaksAt (source : List Char) (position : ℕ) : Prop :=
  ∀ line ∈ logicalLines (physicalLines source),
    position ≤ line.span.start ∨ line.span.stop ≤ position

instance : DecidablePred IsSilent := fun line =>
  have : Decidable (∀ c ∈ line, isWhiteSpace c = true) :=
    List.decidableBAll _ line
  inferInstanceAs (Decidable ('\n' ∉ line ∧
    ((∀ c ∈ line, isWhiteSpace c = true) ∨
      (['%', '%'] <+: trimStart line ∧ '"' ∉ line ∧ '\\' ∉ line))))

instance (source : List Char) (position : ℕ) :
    Decidable (BreaksAt source position) :=
  inferInstanceAs (Decidable (∀ line ∈ logicalLines (physicalLines source),
    position ≤ line.span.start ∨ line.span.stop ≤ position))

/-! ### Open quotes -/

theorem after_opened_of_not_mem {text : List Char}
    (h : '"' ∉ text ∧ '\\' ∉ text) : Quote.opened.after text = .opened := by
  induction text with
  | nil => rfl
  | cons c text ih =>
      simp only [List.mem_cons, not_or] at h
      have hstep : Quote.opened.step c = .opened := by
        simp [Quote.step, Ne.symm h.1.1, Ne.symm h.2.1]
      rw [Quote.after_cons, hstep, ih ⟨h.1.2, h.2.2⟩]

/-- Behind a line break, an open quote is no longer escaped. -/
theorem after_ending {quote : Quote} (h : quote ≠ .closed) {ending : List Char}
    (hne : ending ≠ []) (hwhite : ∀ c ∈ ending, isWhiteSpace c = true) :
    quote.after ending = .opened := by
  obtain ⟨c, ending, rfl⟩ := List.exists_cons_of_ne_nil hne
  rw [List.forall_mem_cons] at hwhite
  have hstep : quote.step c = .opened := by
    cases quote with
    | closed => exact absurd rfl h
    | opened => exact step_isWhiteSpace hwhite.1 (by simp)
    | escaped => rfl
  rw [Quote.after_cons, hstep, after_isWhiteSpace hwhite.2 (by simp)]

/-- The line ends with a line break. -/
structure Line.IsEnded (line : Line) : Prop where
  ne_nil : line.ending ≠ []
  white : ∀ c ∈ line.ending, isWhiteSpace c = true

theorem joined_append (line : Line) (below : List Line) (next : Line)
    (more : List Line) :
    joined line (below ++ next :: more) =
      textOf (line :: below) ++ joined next more := by
  induction below generalizing line with
  | nil => simp [joined, continued, textOf]
  | cons second below ih =>
      have hjoined (rest : List Line) : joined line (second :: rest) =
          line.content ++ (line.ending ++ joined second rest) := rfl
      rw [List.cons_append, hjoined, ih]
      simp [textOf]

theorem exists_textOf_eq_joined_append (line : Line) (below : List Line) :
    ∃ last ∈ line :: below,
      textOf (line :: below) = joined line below ++ last.ending := by
  induction below generalizing line with
  | nil => exact ⟨line, by simp, by simp [textOf, joined, continued]⟩
  | cons second below ih =>
      obtain ⟨last, hlast, htext⟩ := ih second
      refine ⟨last, List.mem_cons_of_mem line hlast, ?_⟩
      have hjoined : joined line (second :: below) =
          line.content ++ (line.ending ++ joined second below) := rfl
      have hsplit : textOf (line :: second :: below) =
          line.content ++ (line.ending ++ textOf (second :: below)) := by
        simp [textOf]
      rw [hsplit, htext, hjoined]
      simp

/-- A quote that lines leave open is open behind the last line break. -/
theorem after_textOf {line : Line} {below : List Line}
    (hended : ∀ other ∈ line :: below, other.IsEnded)
    (hopen : endsInQuotes (joined line below) = true) :
    Quote.closed.after (textOf (line :: below)) = .opened := by
  obtain ⟨last, hlast, htext⟩ := exists_textOf_eq_joined_append line below
  rw [htext, Quote.after_append]
  exact after_ending (by simpa [endsInQuotes] using hopen)
    (hended last hlast).ne_nil (hended last hlast).white

theorem textOf_append (first second : List Line) :
    textOf (first ++ second) = textOf first ++ textOf second :=
  List.flatMap_append

/-! ### How many lines are joined -/

/-- The joined lines are the first ones with which the quotes are closed, or
none if the quotes stay open. -/
theorem joinedCount_cases (line : Line) (below : List Line) :
    (joinedCount line below ≤ below.length ∧
      endsInQuotes (joined line (below.take (joinedCount line below))) =
        false ∧
      ∀ count < joinedCount line below,
        endsInQuotes (joined line (below.take count)) = true) ∨
    (joinedCount line below = 0 ∧
      ∀ count ≤ below.length,
        endsInQuotes (joined line (below.take count)) = true) := by
  unfold joinedCount
  cases hfind : (List.range (below.length + 1)).find? fun count =>
      !endsInQuotes (joined line (below.take count)) with
  | none =>
      rw [List.find?_range_eq_none] at hfind
      refine .inr ⟨rfl, fun count hle => ?_⟩
      simpa using hfind count (Nat.lt_succ_of_le hle)
  | some count =>
      rw [List.find?_range_eq_some] at hfind
      obtain ⟨hcloses, hcount, hopen⟩ := hfind
      refine .inl ⟨Nat.le_of_lt_succ (List.mem_range.mp hcount), ?_, ?_⟩
      · simpa using hcloses
      · intro earlier hlt
        simpa using hopen earlier hlt

section Count

variable {line : Line} {below : List Line}

theorem joinedCount_eq_of_closes {count : ℕ} (hle : count ≤ below.length)
    (hcloses : endsInQuotes (joined line (below.take count)) = false)
    (hopen : ∀ earlier < count,
      endsInQuotes (joined line (below.take earlier)) = true) :
    joinedCount line below = count := by
  have hfind : (List.range (below.length + 1)).find? (fun count =>
      !endsInQuotes (joined line (below.take count))) = some count := by
    rw [List.find?_range_eq_some]
    refine ⟨by simpa using hcloses, ?_, ?_⟩
    · exact List.mem_range.mpr (Nat.lt_succ_of_le hle)
    · intro earlier hlt
      simpa using hopen earlier hlt
  rw [joinedCount, hfind, Option.getD_some]

theorem joinedCount_eq_zero (hopen : ∀ count ≤ below.length,
      endsInQuotes (joined line (below.take count)) = true) :
    joinedCount line below = 0 := by
  rcases joinedCount_cases line below with ⟨hle, hcloses, -⟩ | ⟨hzero, -⟩
  · rw [hopen _ hle] at hcloses
    cases hcloses
  · exact hzero

end Count

/-! ### One more line -/

section Inserted

variable {first line : Line} {rest below others : List Line}
  (hended : ∀ other ∈ first :: rest, other.IsEnded)
  (hsilent : '"' ∉ line.content ++ line.ending ∧
    '\\' ∉ line.content ++ line.ending)
  (hbelow : List.Forall₂ (Line.Corresponds Eq) below others)

include hended hsilent hbelow

/-- Where a quote is open in front of it, a silent line is one more line that
does not close it. -/
theorem endsInQuotes_insert (hopen : endsInQuotes (joined first rest) = true)
    (count : ℕ) :
    endsInQuotes (joined first
        ((rest ++ line :: others).take (rest.length + (count + 1)))) =
      endsInQuotes (joined first
        ((rest ++ below).take (rest.length + count))) := by
  have htext := after_textOf hended hopen
  have hcontent : Quote.opened.after line.content = .opened := by
    apply after_opened_of_not_mem
    simp only [List.mem_append, not_or] at hsilent
    exact ⟨hsilent.1.1, hsilent.2.1⟩
  have hlast : endsInQuotes (joined first (rest ++ [line])) = true := by
    have hline : joined line [] = line.content := List.append_nil _
    rw [joined_append, hline, endsInQuotes, Quote.after_append, htext, hcontent]
    rfl
  rw [List.take_length_add_append, List.take_length_add_append,
    List.take_succ_cons]
  cases hbelow with
  | nil =>
      rw [List.take_nil, hlast]
      simp [hopen]
  | @cons next other below others hnext hbelow =>
      cases count with
      | zero => rw [List.take_zero, List.take_zero, hlast, List.append_nil, hopen]
      | succ count =>
          have hjoined : joined next (below.take count) =
              joined other (others.take count) :=
            keepsLines_eq.joined hnext (List.forall₂_take count hbelow)
          have hinserted : joined line (other :: others.take count) =
              line.content ++ line.ending ++ joined other (others.take count) := by
            simp [joined, continued]
          rw [List.take_succ_cons, List.take_succ_cons, joined_append,
            joined_append, endsInQuotes, endsInQuotes, Quote.after_append,
            Quote.after_append, htext, hinserted, Quote.after_append,
            after_opened_of_not_mem hsilent, hjoined]

/-- How many lines are joined to a line does not depend on a silent line further
down, unless the line is joined with what stands behind that one. -/
theorem joinedCount_insert
    (hcount : joinedCount first (rest ++ below) ≤ rest.length) :
    joinedCount first (rest ++ line :: others) =
      joinedCount first (rest ++ below) := by
  have habove {count : ℕ} (hle : count ≤ rest.length) :
      (rest ++ line :: others).take count = (rest ++ below).take count := by
    rw [List.take_append_of_le_length hle, List.take_append_of_le_length hle]
  rcases joinedCount_cases first (rest ++ below) with
    ⟨-, hcloses, hopen⟩ | ⟨hzero, hopen⟩
  · apply joinedCount_eq_of_closes
    · rw [List.length_append]
      omega
    · rwa [habove hcount]
    · intro earlier hlt
      rw [habove (hlt.le.trans hcount)]
      exact hopen earlier hlt
  · have hrest : endsInQuotes (joined first rest) = true := by
      have hwhole := hopen rest.length (by rw [List.length_append]; omega)
      rwa [List.take_left] at hwhole
    rw [hzero]
    apply joinedCount_eq_zero
    intro count hle
    have hlength := hbelow.length_eq
    rw [List.length_append, List.length_cons] at hle
    rw [List.length_append] at hopen
    rcases Nat.lt_or_ge rest.length count with hbehind | hfront
    · obtain ⟨more, rfl⟩ := Nat.exists_eq_add_of_lt hbehind
      rw [Nat.add_assoc, endsInQuotes_insert hended hsilent hbelow hrest]
      exact hopen _ (by omega)
    · rw [habove hfront]
      exact hopen count (by omega)

end Inserted

theorem byteLength_pos {text : List Char} (h : text ≠ []) :
    0 < byteLength text := by
  obtain ⟨c, text, rfl⟩ := List.exists_cons_of_ne_nil h
  exact Nat.add_pos_left (Char.utf8Size_pos c) _

/-- A line that is joined with lines behind the given ones makes a logical line
that goes on behind them. -/
theorem lt_of_lt_joinedCount {first : Line} {rest below : List Line}
    (hended : ∀ other ∈ first :: rest, other.IsEnded)
    (h : rest.length < joinedCount first (rest ++ below)) :
    byteLength (textOf (first :: rest)) <
      byteLength (joined first
        ((rest ++ below).take (joinedCount first (rest ++ below)))) := by
  rcases joinedCount_cases first (rest ++ below) with
    ⟨hle, hcloses, hopen⟩ | ⟨hzero, -⟩
  · have hrest : endsInQuotes (joined first rest) = true := by
      have hearlier := hopen rest.length h
      rwa [List.take_left] at hearlier
    obtain ⟨more, hmore⟩ := Nat.exists_eq_add_of_lt h
    rw [hmore, Nat.add_assoc] at hle hcloses ⊢
    cases below with
    | nil =>
        rw [List.append_nil] at hle
        omega
    | cons next below =>
        rw [List.take_length_add_append, List.take_succ_cons,
          joined_append] at hcloses ⊢
        rw [byteLength_append]
        refine Nat.lt_add_of_pos_right (byteLength_pos ?_)
        intro hempty
        rw [hempty, List.append_nil, endsInQuotes,
          after_textOf hended hrest] at hcloses
        exact absurd hcloses (by decide)
  · rw [hzero] at h
    exact absurd h (Nat.not_lt_zero _)

/-- A logical line that does not go on behind the given lines is joined with
none behind them. -/
theorem joinedCount_le {offset : ℕ} {first : Line} {rest below : List Line}
    (hplaced : ArePlaced offset (first :: (rest ++ below)))
    (hended : ∀ other ∈ first :: rest, other.IsEnded)
    (hbreak : offset + byteLength (textOf (first :: rest)) ≤ first.start ∨
      first.start + byteLength (joined first
          ((rest ++ below).take (joinedCount first (rest ++ below)))) ≤
        offset + byteLength (textOf (first :: rest))) :
    joinedCount first (rest ++ below) ≤ rest.length := by
  by_contra! hlt
  have hstop := lt_of_lt_joinedCount hended hlt
  have hoffset := hplaced.1
  have hpos : 0 < byteLength (textOf (first :: rest)) := by
    apply byteLength_pos
    simp [textOf, (hended first (by simp)).ne_nil]
  omega

/-- A silent line between two lines that no logical line joins leaves the
logical lines as they are. -/
theorem logicalLines_insert {offset : ℕ} {above below others : List Line}
    {line : Line} (hplaced : ArePlaced offset (above ++ below))
    (hended : ∀ other ∈ above, other.IsEnded)
    (hskipped : isSkipped line.content = true)
    (hsilent : '"' ∉ line.content ++ line.ending ∧
      '\\' ∉ line.content ++ line.ending)
    (hbelow : List.Forall₂ (Line.Corresponds Eq) below others)
    (hbreaks : ∀ logical ∈ logicalLines (above ++ below),
      offset + byteLength (textOf above) ≤ logical.span.start ∨
        logical.span.stop ≤ offset + byteLength (textOf above)) :
    (logicalLines (above ++ line :: others)).map LogicalLine.content =
      (logicalLines (above ++ below)).map LogicalLine.content := by
  induction hlength : above.length using Nat.strong_induction_on
    generalizing offset above with
  | h length ih =>
      cases above with
      | nil =>
          have hsame := keepsLines_eq.logicalLines hbelow
          rw [List.forall₂_eq_eq_eq] at hsame
          rw [List.nil_append, List.nil_append,
            logicalLines_of_skipped others hskipped, hsame]
      | cons first rest =>
          have hrest : ∀ other ∈ rest, other.IsEnded :=
            fun other hother => hended other (List.mem_cons_of_mem first hother)
          rw [List.cons_append] at hplaced hbreaks ⊢
          by_cases hfirst : isSkipped first.content = true
          · rw [logicalLines_of_skipped _ hfirst] at hbreaks
            rw [List.cons_append, logicalLines_of_skipped _ hfirst,
              logicalLines_of_skipped _ hfirst]
            refine ih rest.length ?_ hplaced.2.2 hrest ?_ rfl
            · rw [← hlength]
              exact Nat.lt_succ_self _
            · simpa [textOf, Nat.add_assoc] using hbreaks
          · rw [logicalLines_of_not_skipped _ hfirst] at hbreaks
            rw [List.forall_mem_cons] at hbreaks
            obtain ⟨hlogical, hbreaks⟩ := hbreaks
            have hcount := joinedCount_le hplaced hended hlogical
            obtain ⟨ending, -, htext, hbehind⟩ := exists_textOf_drop_eq hplaced
              (joinedCount first (rest ++ below))
            rw [List.cons_append, logicalLines_of_not_skipped _ hfirst,
              logicalLines_of_not_skipped _ hfirst,
              joinedCount_insert hended hsilent hbelow hcount,
              List.map_cons, List.map_cons]
            rw [List.drop_append_of_le_length hcount] at hbreaks hbehind htext
            rw [List.drop_append_of_le_length hcount,
              List.drop_append_of_le_length hcount,
              List.take_append_of_le_length hcount,
              List.take_append_of_le_length hcount]
            congr 1
            refine ih _ ?_ hbehind (fun other hother =>
              hrest other (List.mem_of_mem_drop hother)) ?_ rfl
            · rw [← hlength, List.length_drop, List.length_cons]
              omega
            · have hbytes := congrArg byteLength htext
              rw [← List.cons_append, textOf_append, textOf_append] at hbytes
              simp only [byteLength_append] at hbytes
              intro logical hmem
              have hbreak := hbreaks logical hmem
              omega

/-! ### Lines of a text -/

theorem IsSilent.isSkipped {line : List Char} (h : IsSilent line) :
    isSkipped line = true :=
  isSkipped_eq_true_iff.mpr (h.2.imp_right And.left)

theorem IsSilent.not_mem {line : List Char} (h : IsSilent line) :
    '"' ∉ line ∧ '\\' ∉ line := by
  rcases h.2 with hblank | hcomment
  · constructor <;> intro hmem <;>
      exact absurd (hblank _ hmem) (by decide)
  · exact hcomment.2

theorem isSkipped_content_ofRaw (start : ℕ) (line : List Char) :
    isSkipped (Line.ofRaw start (line ++ ['\n'])).content = isSkipped line := by
  obtain ⟨tail, hraw, htail⟩ :=
    exists_eq_dropWhileEnd_append isLineBreak (line ++ ['\n'])
  have htrim : trim (Line.ofRaw start (line ++ ['\n'])).content = trim line :=
    calc trim (dropWhileEnd isLineBreak (line ++ ['\n']))
      _ = trim (line ++ ['\n']) := by
          conv_rhs => rw [hraw]
          rw [trim_append_isWhiteSpace _ fun c hc =>
            isWhiteSpace_of_isLineBreak (htail c hc)]
      _ = trim line := trim_append_isWhiteSpace line isWhiteSpace_newline
  rw [Fragment.isSkipped, htrim, Fragment.isSkipped]

theorem isEnded_ofRaw (start : ℕ) (line : List Char) :
    (Line.ofRaw start (line ++ ['\n'])).IsEnded := by
  refine ⟨?_, isWhiteSpace_ending start _⟩
  intro hempty
  have hraw := Line.content_append_ending start (line ++ ['\n'])
  have hcontent : (Line.ofRaw start (line ++ ['\n'])).content <+: line := by
    change dropWhileEnd isLineBreak (line ++ ['\n']) <+: line
    rw [dropWhileEnd_append_of_all line isLineBreak_newline]
    exact dropWhileEnd_isPrefix isLineBreak line
  have hlength := hcontent.length_le
  rw [hempty, List.append_nil] at hraw
  rw [hraw, List.length_append, List.length_singleton] at hlength
  omega

theorem isEnded_of_mem_placeLines {offset : ℕ} {above : List (List Char)} :
    ∀ line ∈ placeLines offset (above.map (· ++ ['\n'])), line.IsEnded := by
  induction above generalizing offset with
  | nil => simp [placeLines]
  | cons line above ih =>
      rw [List.map_cons, placeLines, List.forall_mem_cons]
      exact ⟨isEnded_ofRaw offset line, ih⟩

end Fragment

namespace Diagram

theorem statements_insert {above line : List Char} {below : List Char}
    (habove : above = [] ∨ above.getLast? = some '\n')
    (hline : Fragment.IsSilent line)
    (hbreaks : Fragment.BreaksAt (above ++ below) (byteLength above)) :
    statements (above ++ (line ++ '\n' :: below)) =
      statements (above ++ below) := by
  obtain ⟨lines, hlines, rfl⟩ := Fragment.exists_eq_preceding habove
  have hmore : ∀ other ∈ lines ++ [line], '\n' ∉ other := by
    intro other hother
    rcases List.mem_append.mp hother with hother | hother
    · exact hlines other hother
    · rw [List.mem_singleton.mp hother]
      exact hline.1
  have hsource : Keyword.preceding lines ++ (line ++ '\n' :: below) =
      Keyword.preceding (lines ++ [line]) ++ below := by
    simp [Keyword.preceding]
  have hflatten : (lines.map (· ++ ['\n'])).flatten =
      Keyword.preceding lines := by
    rw [Keyword.preceding, List.flatMap_def]
  have hplaced : Fragment.ArePlaced 0
      (Fragment.physicalLines (Keyword.preceding lines ++ below)) :=
    Fragment.arePlaced_placeLines 0 _
  have hraw := Fragment.Line.content_append_ending
    (byteLength (Keyword.preceding lines)) (line ++ ['\n'])
  have hsilent : '"' ∉ line ++ ['\n'] ∧ '\\' ∉ line ++ ['\n'] := by
    simpa using hline.not_mem
  rw [← hraw] at hsilent
  rw [Fragment.BreaksAt] at hbreaks
  rw [statements_eq_flatMap, statements_eq_flatMap, hsource,
    Fragment.physicalLines_append hmore, List.map_append,
    Fragment.placeLines_append, List.append_assoc]
  rw [Fragment.physicalLines_append hlines] at hplaced hbreaks ⊢
  have hinsert := Fragment.logicalLines_insert hplaced
    Fragment.isEnded_of_mem_placeLines
    ((Fragment.isSkipped_content_ofRaw
      (byteLength (Keyword.preceding lines)) line).trans hline.isSkipped)
    hsilent
    (Fragment.corresponds_placeLines
      (List.forall₂_same.mpr fun _ _ _ _ => ⟨rfl, rfl⟩) _
      (byteLength (Keyword.preceding (lines ++ [line]))))
    (by rwa [Fragment.textOf_placeLines, hflatten, Nat.zero_add])
  rw [Nat.zero_add, hflatten]
  exact congrArg _ hinsert

/-- A blank line, or a comment without quotes and backslashes, may stand between
any two lines that no logical line joins: it changes neither the diagram nor
what is remarked, apart from places. -/
theorem parse_insert {above line below : List Char}
    (habove : above = [] ∨ above.getLast? = some '\n')
    (hline : Fragment.IsSilent line)
    (hbreaks : Fragment.BreaksAt (above ++ below) (byteLength above)) :
    (parse (above ++ (line ++ '\n' :: below))).diagram =
        (parse (above ++ below)).diagram ∧
      (parse (above ++ (line ++ '\n' :: below))).diagnostics.map
          Diagnostic.unplaced =
        (parse (above ++ below)).diagnostics.map Diagnostic.unplaced :=
  parse_congr (statements_insert habove hline hbreaks)

/-- A comment below a quote that is never closed. -/
theorem parse_insert_below_open_quote :
    (parse ("graph LR\nA[\"é --> B\n".toList ++
          (" %% no label".toList ++ '\n' :: "C;D\n".toList))).diagram =
        (parse ("graph LR\nA[\"é --> B\n".toList ++ "C;D\n".toList)).diagram ∧
      (parse ("graph LR\nA[\"é --> B\n".toList ++
          (" %% no label".toList ++ '\n' :: "C;D\n".toList))).diagnostics.map
          Diagnostic.unplaced =
        (parse ("graph LR\nA[\"é --> B\n".toList ++
          "C;D\n".toList)).diagnostics.map Diagnostic.unplaced :=
  parse_insert (by decide) (by decide) (by decide +kernel)

end Diagram

end Flowchart
