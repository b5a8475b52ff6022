import Flowchart.Proofs.SanitizedMeaning

/-!
# Lines that are one statement

A line with an escaped text in quotes is a single statement, whatever the text
is: the splitter keeps its semicolons together, and behind it no quote is open.
Of a diagram with such lines below a header only their texts count.
-/

namespace Flowchart.Fragment

open Text

/-- Every semicolon of the text stands inside quotes. -/
def HidesSemicolons : Quote → List Char → Prop
  | _, [] => True
  | quote, c :: rest =>
    (quote = .closed → c ≠ ';') ∧ HidesSemicolons (quote.step c) rest

theorem HidesSemicolons.append {quote : Quote} {first second : List Char}
    (hfirst : HidesSemicolons quote first)
    (hsecond : HidesSemicolons (quote.after first) second) :
    HidesSemicolons quote (first ++ second) := by
  induction first generalizing quote with
  | nil => exact hsecond
  | cons c first ih => exact ⟨hfirst.1, ih hfirst.2 hsecond⟩

theorem hidesSemicolons_of_not_mem {text : List Char} (h : ';' ∉ text)
    (quote : Quote) : HidesSemicolons quote text := by
  induction text generalizing quote with
  | nil => trivial
  | cons c text ih =>
      rw [List.mem_cons, not_or] at h
      exact ⟨fun _ => Ne.symm h.1, ih h.2 _⟩

theorem hidesSemicolons_escape (text : List Char) :
    HidesSemicolons .opened (escape text) := by
  induction text with
  | nil => trivial
  | cons c text ih =>
      rw [escape_cons]
      split
      next => exact ⟨by simp, by simp [Quote.step], ih⟩
      next hplain =>
        rw [not_or] at hplain
        refine ⟨by simp, ?_⟩
        rwa [Quote.step, if_neg hplain.1, if_neg hplain.2]

theorem HidesSemicolons.pieces {quote : Quote} {text : List Char}
    (h : HidesSemicolons quote text) (depth : ℕ) :
    pieces quote depth text = [text] := by
  induction text generalizing quote depth with
  | nil => rfl
  | cons c text ih =>
      rw [pieces_cons fun hsplit => h.1 hsplit.1 hsplit.2.1, ih h.2]
      rfl

end Flowchart.Fragment

namespace Flowchart.Sanitize

open Text Fragment

theorem after_of_not_mem {text : List Char} (h : '"' ∉ text) :
    Quote.closed.after text = .closed := by
  induction text with
  | nil => rfl
  | cons c text ih =>
      rw [List.mem_cons, not_or] at h
      rw [Quote.after_cons, Quote.step, if_neg (Ne.symm h.1), ih h.2]

/-- Nothing of the text is a quote or a semicolon. -/
def IsSeamless (text : List Char) : Prop :=
  '"' ∉ text ∧ ';' ∉ text

/-- A line with an escaped text in quotes is a single piece. -/
theorem isWhole_quoted {start rest : List Char} (hstart : IsSeamless start)
    (hrest : IsSeamless rest) (text : List Char) :
    IsWhole (start ++ '"' :: (escape text ++ '"' :: rest)) := by
  have hopened : Quote.closed.after (start ++ ['"']) = .opened := by
    rw [Quote.after_append, after_of_not_mem hstart.1]
    rfl
  have hclosed : Quote.closed.after (start ++ ['"'] ++ escape text) =
      .opened := by
    rw [Quote.after_append, hopened, after_escape]
  have hshape : start ++ '"' :: (escape text ++ '"' :: rest) =
      start ++ ['"'] ++ escape text ++ '"' :: rest := by simp
  have hfirst : HidesSemicolons .closed (start ++ ['"']) := by
    apply hidesSemicolons_of_not_mem
    simp [hstart.2]
  have hlast : HidesSemicolons .opened ('"' :: rest) := by
    apply hidesSemicolons_of_not_mem
    simp [hrest.2]
  rw [hshape]
  refine ⟨?_, HidesSemicolons.pieces ?_ 0⟩
  · rw [Quote.after_append, hclosed]
    exact after_of_not_mem hrest.1
  · refine .append (.append hfirst ?_) ?_
    · rw [hopened]
      exact hidesSemicolons_escape text
    · rw [hclosed]
      exact hlast

theorem lineStatements_of_isWhole {line : List Char} (hwhole : IsWhole line)
    (htrimmed : IsTrimmed line) (hne : line ≠ [])
    (hcomment : line.head? ≠ some '%') : lineStatements line = [line] := by
  have hskipped : isSkipped line = false := by
    have hnone : after? ['%', '%'] line = none := by
      rw [after?_eq_none_iff]
      rintro ⟨rest, rfl⟩
      exact hcomment rfl
    simp [isSkipped, htrimmed.trim_eq, hne, hnone]
  rw [lineStatements, hskipped, hwhole.pieces, trimmedPieces]
  simp [htrimmed.trim_eq, hne]

end Flowchart.Sanitize

namespace Flowchart.Diagram

open Text Fragment Grammar Keyword

/-- Only the texts of the statements count, apart from where they stand. -/
theorem exists_parse_eq {source header : List Char} {body : List (List Char)}
    (h : statements source = header :: body) :
    ∃ fragments : List Fragment, fragments.map Fragment.text = body ∧
      parse source =
        assemble ((headerDirection? header).getD .topBottom) fragments := by
  rw [statements] at h
  obtain ⟨first, fragments, htext, rfl, rfl⟩ := List.map_eq_cons_iff.mp h
  refine ⟨fragments, rfl, ?_⟩
  rw [parse, htext]

/-! ### One statement behind a header -/

theorem lines_header (below : List Char) :
    lines ("graph TD\n".toList ++ below) = "graph TD".toList :: lines below := by
  have hheader : ∀ line ∈ ["graph TD".toList], '\n' ∉ line := by decide
  exact lines_preceding_append hheader below

theorem isTrimmed_header {below : List Char} {c : Char}
    (hlast : below.getLast? = some c) (hc : isWhiteSpace c = false) :
    IsTrimmed ("graph TD\n".toList ++ below) := by
  constructor
  · rintro d ⟨rfl⟩
    decide
  · rw [List.getLast?_append, hlast]
    rintro d ⟨rfl⟩
    exact hc

theorem lineStatements_header :
    lineStatements "graph TD".toList = ["graph TD".toList] := by
  decide +kernel

theorem direction_header :
    (headerDirection? "graph TD".toList).getD .topBottom = .topBottom := by
  decide +kernel

end Flowchart.Diagram
