import Flowchart.Proofs.CorrespondingLines
import Flowchart.Proofs.LeadingKeywords
import Flowchart.Proofs.StatementReturns

/-!
# Sources with either kind of line break

Lines may end with a line feed or with a carriage return and a line feed.  The
lines of both forms correspond, with them the logical lines and the statements,
and so both forms hold the same diagram.
-/

namespace Flowchart

open Text

namespace Text

/-- The text with a carriage return in front of every line feed. -/
def addReturns (text : List Char) : List Char :=
  text.flatMap fun c => if c = '\n' then ['\r', '\n'] else [c]

variable {text other : List Char}

theorem withReturns_addReturns (h : '\r' ∉ text) :
    WithReturns text (addReturns text) := by
  induction text with
  | nil => exact .nil
  | cons c text ih =>
      rw [List.mem_cons, not_or] at h
      have hrest := ih h.2
      rw [addReturns, List.flatMap_cons]
      split
      next hfeed =>
        subst hfeed
        exact .newline hrest
      next => exact .cons (Ne.symm h.1) hrest

theorem Quote.step_newline (quote : Quote) :
    quote.step '\n' = (quote.step '\r').step '\n' := by
  cases quote <;> rfl

theorem WithReturns.after_eq (h : WithReturns text other) (quote : Quote) :
    quote.after text = quote.after other := by
  induction h generalizing quote with
  | nil => rfl
  | cons hc _ ih => rw [Quote.after_cons, Quote.after_cons, ih]
  | newline _ ih =>
      rw [Quote.after_cons, Quote.after_cons, Quote.after_cons,
        quote.step_newline, ih]

end Text

/-! ### Headers -/

namespace Keyword

theorem opens_eq_opensFirst (text : List Char) :
    opens text = opensFirst (trimStart text) := by
  have hhead : ∀ c ∈ (trimStart text).head?, isWhiteSpace c = false := by
    have hstart := List.head?_dropWhile_not isWhiteSpace text
    rintro c hc
    rw [trimStart, Option.mem_def] at hc
    simpa [hc] using hstart
  rw [Bool.eq_iff_iff]
  constructor
  · intro hopens
    rw [← opensFirst_trim]
    exact opensFirst_trim_of_opens hopens
  · intro hfirst
    obtain ⟨occurrence, hsome, hbefore⟩ := first?_of_opensFirst hhead hfirst
    simp [opens, hsome, hbefore]

theorem opensFirst_eq {text other : List Char} (h : WithReturns text other) :
    opensFirst text = opensFirst other := by
  have hlines := h.lines
  rw [opensFirst, opensFirst]
  revert hlines
  generalize lines text = first
  generalize lines other = second
  intro hlines
  cases hlines with
  | nil => rfl
  | @cons line _ _ _ hline _ =>
      rcases hline with rfl | rfl
      · rfl
      · exact (opensLine_append_isWhiteSpace isWhiteSpace_return line).symm

end Keyword

theorem Grammar.headerDirection?_eq {text other : List Char}
    (h : WithReturns text other) :
    headerDirection? text = headerDirection? other := by
  have hopens : Keyword.opens text = Keyword.opens other := by
    rw [Keyword.opens_eq_opensFirst, Keyword.opensFirst_eq h.trimStart,
      Keyword.opens_eq_opensFirst]
  rw [headerDirection?, headerDirection?, hopens, h.words_eq]

namespace Fragment

variable {text other : List Char}

/-! ### Lines -/

theorem keepsLines_withReturns : KeepsLines WithReturns where
  nil := .nil
  append := fun hfirst hsecond => hfirst.append hsecond
  after := fun h quote => h.after_eq quote
  skipped := by
    intro text other h
    have hmark : Option.Rel WithReturns (after? ['%', '%'] (trim text))
        (after? ['%', '%'] (trim other)) := h.trim.after? (by decide)
    rw [isSkipped, isSkipped, h.trim.isEmpty_eq, isSome_eq_of_rel hmark]

theorem rawLines_lines_newline (text : List Char) :
    rawLines (lines ('\n' :: text)) = ['\n'] :: rawLines (lines text) := by
  obtain ⟨line, below, hlines⟩ :=
    List.exists_cons_of_ne_nil (List.splitOn_ne_nil '\n' text)
  rw [lines_cons, if_pos rfl, lines, hlines]
  rfl

theorem rawLines_lines_cons {c : Char} (hc : c ≠ '\n') (text : List Char) :
    rawLines (lines (c :: text)) =
      match rawLines (lines text) with
      | [] => [[c]]
      | raw :: below => (c :: raw) :: below := by
  obtain ⟨line, below, hlines⟩ :=
    List.exists_cons_of_ne_nil (List.splitOn_ne_nil '\n' text)
  rw [lines_cons, if_neg hc, lines, hlines, List.modifyHead_cons]
  cases below with
  | nil => cases line <;> rfl
  | cons next below => rfl

theorem rawLines_withReturns (h : WithReturns text other) :
    List.Forall₂ WithReturns (rawLines (lines text))
      (rawLines (lines other)) := by
  induction h with
  | nil => exact .nil
  | @cons c text other hc h ih =>
      by_cases hfeed : c = '\n'
      · subst hfeed
        rw [rawLines_lines_newline, rawLines_lines_newline]
        exact .cons (.refl (by decide)) ih
      · rw [rawLines_lines_cons hfeed, rawLines_lines_cons hfeed]
        revert ih
        generalize rawLines (lines text) = first
        generalize rawLines (lines other) = second
        intro ih
        cases ih with
        | nil => exact .cons (.cons hc .nil) .nil
        | cons hraw hbelow => exact .cons (.cons hc hraw) hbelow
  | newline h ih =>
      rw [rawLines_lines_newline, rawLines_lines_cons (by decide),
        rawLines_lines_newline]
      exact .cons (.newline .nil) ih

theorem physicalLines_withReturns (h : WithReturns text other) :
    List.Forall₂ (Line.Corresponds WithReturns) (physicalLines text)
      (physicalLines other) := by
  refine corresponds_placeLines ?_ 0 0
  refine (rawLines_withReturns h).imp fun raw other hraw start start' => ?_
  have hbreak : isLineBreak '\r' = isLineBreak '\n' := rfl
  have hparts := hraw.dropWhileEnd_drop hbreak
  exact ⟨hparts.1, hparts.2⟩

/-! ### Pieces -/

theorem forall₂_modifyHead {texts others : List (List Char)}
    {change change' : List Char → List Char}
    (h : List.Forall₂ WithReturns texts others)
    (hchange : ∀ text other, WithReturns text other →
      WithReturns (change text) (change' other)) :
    List.Forall₂ WithReturns (texts.modifyHead change)
      (others.modifyHead change') := by
  cases h with
  | nil => exact .nil
  | cons hfirst hothers => exact .cons (hchange _ _ hfirst) hothers

theorem pieces_withReturns (h : WithReturns text other) (quote : Quote)
    (depth : ℕ) :
    List.Forall₂ WithReturns (pieces quote depth text)
      (pieces quote depth other) := by
  induction h generalizing quote depth with
  | nil => exact .cons .nil .nil
  | @cons c text other hc h ih =>
      by_cases hsplit : quote = .closed ∧ c = ';' ∧ depth = 0
      · rw [pieces, pieces, if_pos hsplit, if_pos hsplit]
        exact .cons .nil (ih .closed 0)
      · rw [pieces_cons hsplit, pieces_cons hsplit]
        exact forall₂_modifyHead (ih _ _) fun _ _ hfirst => .cons hc hfirst
  | newline h ih =>
      have hdepth : depthAfter quote depth '\n' =
          depthAfter (quote.step '\r') (depthAfter quote depth '\r') '\n' := by
        cases quote <;> rfl
      rw [pieces_cons (by simp), pieces_cons (by simp), pieces_cons (by simp),
        List.modifyHead_modifyHead, ← quote.step_newline, ← hdepth]
      exact forall₂_modifyHead (ih _ _) fun _ _ hfirst => .newline hfirst

theorem trimmedPieces_withReturns {texts others : List (List Char)}
    (h : List.Forall₂ WithReturns texts others) :
    List.Forall₂ WithReturns (trimmedPieces texts) (trimmedPieces others) := by
  have htrimmed : List.Forall₂ WithReturns (texts.map trim) (others.map trim) :=
    List.rel_map (fun _ _ htext => htext.trim) h
  refine List.rel_filter (fun text other htext => ?_) htrimmed
  simp only [htext.isEmpty_eq]

end Fragment

namespace Diagram

variable {source other : List Char}

/-- The statements of both forms of a text correspond. -/
theorem statements_withReturns (h : WithReturns source other) :
    List.Forall₂ WithReturns (statements source) (statements other) := by
  have hcontents := Fragment.keepsLines_withReturns.logicalLines
    (Fragment.physicalLines_withReturns h)
  rw [statements_eq_flatMap, statements_eq_flatMap]
  refine List.rel_flatMap hcontents fun text other htext => ?_
  exact Fragment.trimmedPieces_withReturns
    (Fragment.pieces_withReturns htext .closed 0)

theorem parse_withReturns (h : WithReturns source other) :
    (parse source).diagram = (parse other).diagram := by
  have hstatements := statements_withReturns h
  apply diagram_parse_congr
  · revert hstatements
    generalize statements source = first
    generalize statements other = second
    rintro (- | ⟨hheader, -⟩)
    · rfl
    · exact Grammar.headerDirection?_eq hheader
  · have heffects : List.Forall₂ Eq ((statements source).map Grammar.effect?)
        ((statements other).map Grammar.effect?) :=
      List.rel_map (fun _ _ htext => Grammar.effect?_eq htext) hstatements
    rw [List.forall₂_eq_eq_eq] at heffects
    rw [List.map_tail, List.map_tail, heffects]

/-- Whether lines end with a line feed or with a carriage return and a line feed
does not matter to the diagram. -/
theorem parse_addReturns (h : '\r' ∉ source) :
    (parse (addReturns source)).diagram = (parse source).diagram :=
  (parse_withReturns (withReturns_addReturns h)).symm

/-- A label over two lines, behind a backslash at the end of the first. -/
theorem parse_addReturns_label_over_lines :
    (parse (addReturns
        "graph LR\nA[\"é\\\nb<br\n>c\"]\n%% x\nA-->B".toList)).diagram =
      (parse "graph LR\nA[\"é\\\nb<br\n>c\"]\n%% x\nA-->B".toList).diagram :=
  parse_addReturns (by decide)

end Diagram

end Flowchart
