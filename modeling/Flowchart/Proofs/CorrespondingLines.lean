import Flowchart.Proofs.LineStatements
import Flowchart.Proofs.Meaning
import Mathlib.Data.List.Forall2

/-!
# Corresponding lines

Two texts whose lines correspond one to one, in the text of each line and in the
line break at its end, have corresponding logical lines, and with them
corresponding statements.  What has to be known of corresponding texts is only
that they agree on quotes and on what is skipped.
-/

namespace Flowchart

open Text

namespace Fragment

/-- Texts that may stand for each other in lines. -/
structure KeepsLines (Same : List Char → List Char → Prop) : Prop where
  nil : Same [] []
  append : ∀ {first first' second second' : List Char}, Same first first' →
    Same second second' → Same (first ++ second) (first' ++ second')
  after : ∀ {text text' : List Char}, Same text text' → ∀ quote : Quote,
    quote.after text = quote.after text'
  skipped : ∀ {text text' : List Char}, Same text text' →
    isSkipped text = isSkipped text'

theorem keepsLines_eq : KeepsLines Eq where
  nil := rfl
  append := fun first second => first ▸ second ▸ rfl
  after := fun text _ => text ▸ rfl
  skipped := fun text => text ▸ rfl

/-- The lines have corresponding texts and line breaks, wherever they stand. -/
structure Line.Corresponds (Same : List Char → List Char → Prop)
    (line other : Line) : Prop where
  content : Same line.content other.content
  ending : Same line.ending other.ending

/-- Lines correspond if they do so at every place. -/
theorem corresponds_placeLines {Same : List Char → List Char → Prop}
    {raws others : List (List Char)}
    (h : List.Forall₂ (fun raw other => ∀ start start',
      (Line.ofRaw start raw).Corresponds Same (Line.ofRaw start' other))
        raws others) (offset offset' : ℕ) :
    List.Forall₂ (Line.Corresponds Same) (placeLines offset raws)
      (placeLines offset' others) := by
  induction h generalizing offset offset' with
  | nil => exact .nil
  | cons hraw _ ih => exact .cons (hraw _ _) (ih _ _)

section Corresponding

variable {Same : List Char → List Char → Prop}

theorem KeepsLines.continued (hsame : KeepsLines Same) {lines others : List Line}
    (h : List.Forall₂ (Line.Corresponds Same) lines others)
    {ending ending' : List Char} (hending : Same ending ending') :
    Same (continued ending lines) (continued ending' others) := by
  induction h generalizing ending ending' with
  | nil => exact hsame.nil
  | cons hline _ ih =>
      exact hsame.append hending (hsame.append hline.content (ih hline.ending))

theorem KeepsLines.joined (hsame : KeepsLines Same) {line other : Line}
    (hline : Line.Corresponds Same line other) {below others : List Line}
    (h : List.Forall₂ (Line.Corresponds Same) below others) :
    Same (joined line below) (joined other others) :=
  hsame.append hline.content (hsame.continued h hline.ending)

theorem KeepsLines.joinedCount_eq (hsame : KeepsLines Same) {line other : Line}
    (hline : Line.Corresponds Same line other) {below others : List Line}
    (h : List.Forall₂ (Line.Corresponds Same) below others) :
    joinedCount line below = joinedCount other others := by
  have hcloses : ∀ count, endsInQuotes (Fragment.joined line (below.take count)) =
      endsInQuotes (Fragment.joined other (others.take count)) := by
    intro count
    rw [endsInQuotes, endsInQuotes,
      hsame.after (hsame.joined hline (List.forall₂_take count h))]
  rw [joinedCount, joinedCount, h.length_eq]
  simp only [hcloses]

/-- Corresponding lines are joined in the same way. -/
theorem KeepsLines.logicalLines (hsame : KeepsLines Same)
    {lines others : List Line}
    (h : List.Forall₂ (Line.Corresponds Same) lines others) :
    List.Forall₂ Same ((logicalLines lines).map LogicalLine.content)
      ((logicalLines others).map LogicalLine.content) := by
  induction lines using Fragment.logicalLines.induct generalizing others with
  | case1 =>
      rw [List.forall₂_nil_left_iff.mp h, Fragment.logicalLines]
      exact .nil
  | case2 line below hskipped ih =>
      obtain ⟨other, others, hline, hbelow, rfl⟩ :=
        List.forall₂_cons_left_iff.mp h
      rw [logicalLines_of_skipped below hskipped, logicalLines_of_skipped others]
      · exact ih hbelow
      · rw [← hsame.skipped hline.content, hskipped]
  | case3 line below hskipped ih =>
      obtain ⟨other, others, hline, hbelow, rfl⟩ :=
        List.forall₂_cons_left_iff.mp h
      have hcount := hsame.joinedCount_eq hline hbelow
      rw [logicalLines_of_not_skipped below hskipped,
        logicalLines_of_not_skipped others, List.map_cons, List.map_cons,
        ← hcount]
      · exact .cons (hsame.joined hline (List.forall₂_take _ hbelow))
          (ih (List.forall₂_drop _ hbelow))
      · rwa [← hsame.skipped hline.content]

end Corresponding

/-! ### Lines that are put together -/

theorem rawLines_append (above : List (List Char)) {below : List (List Char)}
    (h : below ≠ []) :
    rawLines (above ++ below) = above.map (· ++ ['\n']) ++ rawLines below := by
  induction above with
  | nil => rfl
  | cons line above ih =>
      rw [List.cons_append, rawLines, ih]
      · rfl
      · simp [h]

theorem placeLines_append (offset : ℕ) (above below : List (List Char)) :
    placeLines offset (above ++ below) =
      placeLines offset above ++
        placeLines (offset + byteLength above.flatten) below := by
  induction above generalizing offset with
  | nil => simp [placeLines]
  | cons raw above ih => simp [placeLines, ih, Nat.add_assoc]

/-- A text that is empty or ends with a line feed is made up of lines that end
with one. -/
theorem exists_eq_preceding {text : List Char}
    (h : text = [] ∨ text.getLast? = some '\n') :
    ∃ above, (∀ line ∈ above, '\n' ∉ line) ∧
      text = Keyword.preceding above := by
  rcases h with rfl | hlast
  · exact ⟨[], by simp, rfl⟩
  · obtain ⟨before, rfl⟩ := List.getLast?_eq_some_iff.mp hlast
    refine ⟨lines before, fun _ hline => Keyword.not_mem_of_mem_lines hline, ?_⟩
    obtain ⟨above, last, hlines⟩ :=
      List.eq_nil_or_concat (lines before) |>.resolve_left
        (List.splitOn_ne_nil '\n' before)
    rw [List.concat_eq_append] at hlines
    have hbefore := Keyword.eq_preceding_append hlines
    rw [hlines]
    conv_lhs => rw [hbefore]
    simp [Keyword.preceding, Keyword.following]

/-- The lines of the second part follow those of the first. -/
theorem physicalLines_append {above : List (List Char)}
    (h : ∀ line ∈ above, '\n' ∉ line) (text : List Char) :
    physicalLines (Keyword.preceding above ++ text) =
      placeLines 0 (above.map (· ++ ['\n'])) ++
        placeLines (byteLength (Keyword.preceding above))
          (rawLines (lines text)) := by
  have hbelow : lines text ≠ [] := List.splitOn_ne_nil '\n' text
  rw [physicalLines, Keyword.lines_preceding_append h, rawLines_append _ hbelow,
    placeLines_append, Nat.zero_add, Keyword.preceding, List.flatMap_def]

end Fragment

namespace Diagram

/-- The texts of the statements are cut from the logical lines. -/
theorem statements_eq_flatMap (source : List Char) :
    statements source =
      ((Fragment.logicalLines (Fragment.physicalLines source)).map
        Fragment.LogicalLine.content).flatMap fun content =>
          Fragment.trimmedPieces (Fragment.pieces .closed 0 content) := by
  rw [statements, Fragment.ofText, Fragment.ofLines_eq, List.map_flatMap,
    List.flatMap_map]
  congr 1
  funext line
  exact Fragment.map_text_ofPieces _ _

end Diagram

end Flowchart
