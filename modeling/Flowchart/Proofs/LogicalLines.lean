import Flowchart.Proofs.Statements

/-!
# Logical lines

A line that leaves a quote open is joined with the lines below it, up to the
first one behind which the quotes are closed; where there is none, it stands
alone.  Blank lines and comments that are not joined to a line above them make
no logical line.  The statements of a text are those of its logical lines.
-/

namespace Flowchart.Fragment

open Text

/-! ### Joining lines -/

/-- What the lines below add to a line that ends with the given line break. -/
def continued (ending : List Char) : List Line → List Char
  | [] => []
  | line :: below => ending ++ (line.content ++ continued line.ending below)

/-- The text of the line and the lines below it, up to the last line break. -/
def joined (line : Line) (below : List Line) : List Char :=
  line.content ++ continued line.ending below

/-- How many of the lines below it are joined to the line. -/
def joinedCount (line : Line) (below : List Line) : ℕ :=
  ((List.range (below.length + 1)).find? fun count =>
    !endsInQuotes (joined line (below.take count))).getD 0

/-- A line as the statements are cut from it, and where it starts. -/
structure LogicalLine where
  start : ℕ
  content : List Char

/-- The logical lines of consecutive lines. -/
def logicalLines : List Line → List LogicalLine
  | [] => []
  | line :: below =>
    if isSkipped line.content then logicalLines below
    else
      ⟨line.start, joined line (below.take (joinedCount line below))⟩ ::
        logicalLines (below.drop (joinedCount line below))
termination_by lines => lines.length
decreasing_by
  · simp
  · simp only [List.length_drop, List.length_cons]
    omega

theorem logicalLines_of_skipped {line : Line} (below : List Line)
    (h : isSkipped line.content = true) :
    logicalLines (line :: below) = logicalLines below := by
  rw [logicalLines, if_pos h]

theorem logicalLines_of_not_skipped {line : Line} (below : List Line)
    (h : ¬ isSkipped line.content = true) :
    logicalLines (line :: below) =
      ⟨line.start, joined line (below.take (joinedCount line below))⟩ ::
        logicalLines (below.drop (joinedCount line below)) := by
  rw [logicalLines, if_neg h]

def LogicalLine.statements (line : LogicalLine) : List Fragment :=
  ofPieces line.start (pieces .closed 0 line.content)

theorem endsInQuotes_eq_false_iff {text : List Char} :
    endsInQuotes text = false ↔ Quote.closed.after text = .closed := by
  simp [endsInQuotes]

/-- The first line behind which the quotes are closed. -/
theorem closingLine?_eq (quote : Quote) (ending : List Char)
    (below : List Line) :
    closingLine? quote ending below =
      ((List.range below.length).find? fun index =>
        quote.after (continued ending (below.take (index + 1))) = .closed).map
          fun index => (continued ending (below.take (index + 1)),
            below.drop (index + 1)) := by
  induction below generalizing quote ending with
  | nil => rfl
  | cons line below ih =>
      have hfirst :
          quote.after (continued ending ((line :: below).take (0 + 1))) =
            quote.after (ending ++ line.content) := by
        simp [continued]
      have hlater : ∀ index, quote.after
          (continued ending ((line :: below).take (index + 1 + 1))) =
            (quote.after (ending ++ line.content)).after
              (continued line.ending (below.take (index + 1))) := by
        simp [continued]
      rw [closingLine?, ih, List.length_cons, List.range_succ_eq_map,
        List.find?_cons, hfirst, List.find?_map]
      by_cases hclosed : quote.after (ending ++ line.content) = .closed
      · simp [hclosed, continued]
      · simp only [hclosed, if_false, decide_false, Option.map_map,
          Function.comp_def, Nat.succ_eq_add_one, hlater]
        congr 1
        funext index
        simp [continued]

theorem joinedCount_of_closed {line : Line}
    (h : Quote.closed.after line.content = .closed) (below : List Line) :
    joinedCount line below = 0 := by
  rw [joinedCount, List.range_succ_eq_map, List.find?_cons_of_pos]
  · rfl
  · simp [endsInQuotes, joined, continued, h]

theorem joinedCount_of_open {line : Line}
    (h : Quote.closed.after line.content ≠ .closed) (below : List Line) :
    joinedCount line below =
      (((List.range below.length).find? fun index =>
        (Quote.closed.after line.content).after
          (continued line.ending (below.take (index + 1))) = .closed).map
            Nat.succ).getD 0 := by
  have hlater : (fun count => !endsInQuotes (joined line (below.take count))) ∘
      Nat.succ = fun index => decide ((Quote.closed.after line.content).after
        (continued line.ending (below.take (index + 1))) = .closed) := by
    funext index
    simp only [Function.comp_apply, Nat.succ_eq_add_one, endsInQuotes, joined,
      Quote.after_append, bne, Bool.not_not]
    rfl
  rw [joinedCount, List.range_succ_eq_map, List.find?_cons_of_neg,
    List.find?_map, hlater]
  simp [endsInQuotes, joined, continued, h]

/-- A line that is neither blank nor a comment starts a logical line. -/
theorem ofLines_cons {line : Line} (h : isSkipped line.content = false)
    (below : List Line) :
    ofLines (line :: below) =
      LogicalLine.statements ⟨line.start,
          joined line (below.take (joinedCount line below))⟩ ++
        ofLines (below.drop (joinedCount line below)) := by
  rw [ofLines, h]
  simp only [Bool.false_eq_true, if_false]
  by_cases hclosed : Quote.closed.after line.content = .closed
  · rw [joinedCount_of_closed hclosed]
    split
    next => simp [LogicalLine.statements, joined, continued]
    next hmore => simp [hclosed] at hmore
  · rw [joinedCount_of_open hclosed]
    split
    next hnone =>
      rw [if_neg hclosed, closingLine?_eq, Option.map_eq_none_iff] at hnone
      rw [hnone]
      simp [LogicalLine.statements, joined, continued]
    next more rest hmore =>
      rw [if_neg hclosed, closingLine?_eq, Option.map_eq_some_iff] at hmore
      obtain ⟨index, hindex, heq⟩ := hmore
      obtain ⟨rfl, rfl⟩ := Prod.mk.inj heq
      rw [hindex]
      rfl

theorem ofLines_eq (lines : List Line) :
    ofLines lines = (logicalLines lines).flatMap LogicalLine.statements := by
  induction lines using logicalLines.induct with
  | case1 => rw [ofLines, logicalLines]; rfl
  | case2 line below hskipped ih =>
      rw [ofLines, if_pos hskipped, logicalLines_of_skipped below hskipped, ih]
  | case3 line below hskipped ih =>
      rw [ofLines_cons (by simpa using hskipped),
        logicalLines_of_not_skipped below hskipped, List.flatMap_cons, ih]

/-! ### Placing lines -/

/-- The lines follow each other from the offset on, and nothing but white space
ends them. -/
def ArePlaced : ℕ → List Line → Prop
  | _, [] => True
  | offset, line :: below =>
    line.start = offset ∧ (∀ c ∈ line.ending, isWhiteSpace c = true) ∧
      ArePlaced (offset + byteLength (line.content ++ line.ending)) below

/-- The text that the lines make up. -/
def textOf (lines : List Line) : List Char :=
  lines.flatMap fun line => line.content ++ line.ending

theorem arePlaced_append {offset : ℕ} {first second : List Line} :
    ArePlaced offset (first ++ second) ↔
      ArePlaced offset first ∧
        ArePlaced (offset + byteLength (textOf first)) second := by
  induction first generalizing offset with
  | nil => simp [ArePlaced, textOf]
  | cons line first ih =>
      simp [ArePlaced, textOf, ih, and_assoc, Nat.add_assoc]

theorem isWhiteSpace_ending (start : ℕ) (raw : List Char) :
    ∀ c ∈ (Line.ofRaw start raw).ending, isWhiteSpace c = true := by
  obtain ⟨tail, hraw, htail⟩ := exists_eq_dropWhileEnd_append isLineBreak raw
  have hending : (Line.ofRaw start raw).ending = tail :=
    List.append_cancel_left ((Line.content_append_ending start raw).trans hraw)
  rw [hending]
  exact fun c hc => isWhiteSpace_of_isLineBreak (htail c hc)

theorem arePlaced_placeLines (offset : ℕ) (raws : List (List Char)) :
    ArePlaced offset (placeLines offset raws) := by
  induction raws generalizing offset with
  | nil => trivial
  | cons raw below ih =>
      refine ⟨rfl, isWhiteSpace_ending offset raw, ?_⟩
      rw [Line.content_append_ending]
      exact ih _

theorem textOf_placeLines (offset : ℕ) (raws : List (List Char)) :
    textOf (placeLines offset raws) = raws.flatten := by
  induction raws generalizing offset with
  | nil => rfl
  | cons raw below ih =>
      rw [placeLines, textOf, List.flatMap_cons, Line.content_append_ending,
        List.flatten_cons]
      exact congrArg _ (ih _)

theorem flatten_rawLines (lines : List (List Char)) :
    (rawLines lines).flatten = ['\n'].intercalate lines := by
  induction lines using rawLines.induct with
  | case1 => rfl
  | case2 last hempty => simp [rawLines, List.isEmpty_iff.mp hempty]
  | case3 last hempty => simp [rawLines, hempty]
  | case4 line below hne ih =>
      obtain ⟨next, below, rfl⟩ := List.exists_cons_of_ne_nil hne
      simp [rawLines, ih]

theorem textOf_physicalLines (text : List Char) :
    textOf (physicalLines text) = text := by
  rw [physicalLines, textOf_placeLines, flatten_rawLines]
  exact List.intercalate_splitOn '\n'

theorem le_start_of_mem {offset : ℕ} {lines : List Line}
    (h : ArePlaced offset lines) {line : Line} (hline : line ∈ lines) :
    offset ≤ line.start := by
  obtain ⟨above, below, rfl⟩ := List.append_of_mem hline
  have hplaced := (arePlaced_append.mp h).2
  rw [hplaced.1]
  exact Nat.le_add_right _ _

/-- The joined lines are the text of their lines up to the last line break. -/
theorem exists_textOf_eq {offset : ℕ} {line : Line} {below : List Line}
    (h : ArePlaced offset (line :: below)) :
    ∃ ending, textOf (line :: below) = joined line below ++ ending ∧
      ∀ c ∈ ending, isWhiteSpace c = true := by
  induction below generalizing offset line with
  | nil => exact ⟨line.ending, by simp [textOf, joined, continued], h.2.1⟩
  | cons next below ih =>
      obtain ⟨ending, htext, hending⟩ := ih h.2.2
      refine ⟨ending, ?_, hending⟩
      have htail : textOf (line :: next :: below) =
          line.content ++ line.ending ++ textOf (next :: below) := by
        simp [textOf]
      rw [htail, htext]
      simp [joined, continued]

/-- The lines below the joined ones go on behind their text. -/
theorem exists_textOf_drop_eq {offset : ℕ} {line : Line} {below : List Line}
    (h : ArePlaced offset (line :: below)) (count : ℕ) :
    ∃ ending, (∀ c ∈ ending, isWhiteSpace c = true) ∧
      textOf (line :: below) =
        joined line (below.take count) ++
          (ending ++ textOf (below.drop count)) ∧
      ArePlaced (offset + byteLength (joined line (below.take count)) +
        byteLength ending) (below.drop count) := by
  have hsplit : line :: below =
      (line :: below.take count) ++ below.drop count := by
    rw [List.cons_append, List.take_append_drop]
  rw [hsplit, arePlaced_append] at h
  obtain ⟨ending, htext, hending⟩ := exists_textOf_eq h.1
  refine ⟨ending, hending, ?_, ?_⟩
  · conv_lhs => rw [hsplit, textOf, List.flatMap_append]
    rw [← List.append_assoc, ← htext]
    rfl
  · rw [Nat.add_assoc, ← byteLength_append, ← htext]
    exact h.2

end Flowchart.Fragment
