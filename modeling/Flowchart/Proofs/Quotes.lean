import Flowchart.Text.Quote

/-!
# What leaves quotes as they are

White space neither opens nor closes a quote, so that it does not matter to a
line whose quotes are closed.  Escaped text does not close the quote that it
stands in.
-/

namespace Flowchart.Text

theorem step_isWhiteSpace {quote : Quote} {c : Char}
    (h : isWhiteSpace c = true) (hquote : quote ≠ .escaped) :
    quote.step c = quote := by
  have hnone : c ≠ '"' ∧ c ≠ '\\' := by
    constructor <;> (rintro rfl; exact absurd h (by decide))
  cases quote with
  | closed => simp [Quote.step, hnone.1]
  | opened => simp [Quote.step, hnone.1, hnone.2]
  | escaped => exact absurd rfl hquote

theorem after_isWhiteSpace {quote : Quote} {text : List Char}
    (h : ∀ c ∈ text, isWhiteSpace c = true) (hquote : quote ≠ .escaped) :
    quote.after text = quote := by
  induction text with
  | nil => rfl
  | cons c text ih =>
      rw [List.forall_mem_cons] at h
      rw [Quote.after_cons, step_isWhiteSpace h.1 hquote, ih h.2]

/-- Quotes that are closed behind white space are closed in front of it. -/
theorem after_append_eq_closed_iff {quote : Quote} {text tail : List Char}
    (h : ∀ c ∈ tail, isWhiteSpace c = true) :
    quote.after (text ++ tail) = .closed ↔ quote.after text = .closed := by
  rw [Quote.after_append]
  cases hstate : quote.after text with
  | closed => simp [after_isWhiteSpace h]
  | opened => simp [after_isWhiteSpace h]
  | escaped =>
      cases tail with
      | nil => rfl
      | cons c tail =>
          rw [List.forall_mem_cons] at h
          have hopened : Quote.escaped.step c = .opened := rfl
          simp [hopened, after_isWhiteSpace h.2]

theorem after_append_left {before : List Char}
    (h : ∀ c ∈ before, isWhiteSpace c = true) (text : List Char) :
    Quote.closed.after (before ++ text) = Quote.closed.after text := by
  rw [Quote.after_append, after_isWhiteSpace h (by simp)]

theorem escape_cons (c : Char) (text : List Char) :
    escape (c :: text) =
      (if c = '\\' ∨ c = '"' then ['\\', c] else [c]) ++ escape text :=
  rfl

theorem after_escape (text : List Char) :
    Quote.opened.after (escape text) = .opened := by
  induction text with
  | nil => rfl
  | cons c text ih =>
      rw [escape_cons, Quote.after_append]
      split
      next => simpa [Quote.step] using ih
      next hplain =>
        rw [not_or] at hplain
        simpa [Quote.step, hplain] using ih

end Flowchart.Text
