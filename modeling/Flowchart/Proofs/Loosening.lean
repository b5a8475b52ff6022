import Flowchart.Proofs.Sanitizing
import Flowchart.Source.Fence

/-!
# Sanitizing loosens a text

The rules put characters into a text and cut it off at its end, but they never
take a character out from between two backquotes.  So no fence stands in
sanitized text that has not been there before.
-/

namespace Flowchart

namespace Text

/-- The second text is the first one with characters other than the mark put
in, each of them possibly in the place of a stretch of text, and with an end
that may be missing. -/
inductive Loosened (mark : Char) : List Char → List Char → Prop where
  | stop (text : List Char) : Loosened mark text []
  | keep {text out : List Char} (c : Char) (h : Loosened mark text out) :
      Loosened mark (c :: text) (c :: out)
  | put {text out : List Char} (gap : List Char) {c : Char} (hc : c ≠ mark)
      (h : Loosened mark text out) : Loosened mark (gap ++ text) (c :: out)

namespace Loosened

variable {mark : Char} {text out : List Char}

theorem refl (mark : Char) (text : List Char) : Loosened mark text text := by
  induction text with
  | nil => exact .stop []
  | cons c text ih => exact .keep c ih

theorem append_left (h : Loosened mark text out) (before : List Char) :
    Loosened mark (before ++ text) (before ++ out) := by
  induction before with
  | nil => exact h
  | cons c before ih => exact .keep c ih

theorem insert (h : Loosened mark text out) {c : Char} (hc : c ≠ mark) :
    Loosened mark text (c :: out) :=
  .put [] hc h

/-- Lines may be loosened one by one. -/
theorem append_cons (h : Loosened mark text out) {c : Char} (hc : c ≠ mark)
    {below more : List Char} (hbelow : Loosened mark below more) :
    Loosened mark (text ++ c :: below) (out ++ c :: more) := by
  induction h with
  | stop text =>
      have hput := Loosened.put (text ++ [c]) hc hbelow
      rwa [List.append_assoc] at hput
  | keep d _ ih => exact .keep d ih
  | put gap hd _ ih =>
      rw [List.append_assoc]
      exact .put gap hd ih

theorem escape (h : Loosened '`' text out) (body : List Char) :
    Loosened '`' (body ++ text) (Text.escape body ++ out) := by
  induction body with
  | nil => exact h
  | cons c body ih =>
      rw [escape_cons]
      split
      next => exact .insert (.keep c ih) (by decide)
      next => exact .keep c ih

end Loosened

end Text

namespace Sanitize

open Text Keyword

end Sanitize

end Flowchart
