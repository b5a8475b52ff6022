import Flowchart.Proofs.QuotedTitles
import Flowchart.Proofs.Search
import Flowchart.Proofs.Trimming
import Mathlib.Data.List.Forall2

/-!
# Carriage returns in front of line feeds

A text may be written with a carriage return in front of its line feeds.  The
operations on text do not tell the two forms apart: what they cut off agrees in
the same way, and they succeed on both or on none.
-/

namespace Flowchart.Text

/-- The second text is the first one with carriage returns in front of line
feeds.  The first one has none. -/
inductive WithReturns : List Char → List Char → Prop
  | nil : WithReturns [] []
  | cons {c : Char} {text other : List Char} (hc : c ≠ '\r') :
      WithReturns text other → WithReturns (c :: text) (c :: other)
  | newline {text other : List Char} :
      WithReturns text other →
        WithReturns ('\n' :: text) ('\r' :: '\n' :: other)

/-- Two results are both missing, or the values agree in the given way and the
texts behind them in carriage returns. -/
def Agree {α : Type} (Same : α → α → Prop) :
    Option (α × List Char) → Option (α × List Char) → Prop :=
  Option.Rel fun first second =>
    Same first.1 second.1 ∧ WithReturns first.2 second.2

/-- The reader does not tell texts apart by their carriage returns. -/
def Respects {α : Type} (Same : α → α → Prop)
    (reader : List Char → Option (α × List Char)) : Prop :=
  ∀ ⦃text other⦄, WithReturns text other →
    Agree Same (reader text) (reader other)

/-! ### Related results -/

section Related

variable {α β γ δ : Type} {Same : α → β → Prop} {Alike : γ → δ → Prop}
  {first : Option α} {second : Option β}

theorem rel_bind (h : Option.Rel Same first second) {read : α → Option γ}
    {read' : β → Option δ}
    (hread : ∀ value value', Same value value' →
      Option.Rel Alike (read value) (read' value')) :
    Option.Rel Alike (first.bind read) (second.bind read') := by
  cases h with
  | none => exact .none
  | some hvalue => exact hread _ _ hvalue

theorem rel_map (h : Option.Rel Same first second) {change : α → γ}
    {change' : β → δ}
    (hchange : ∀ value value', Same value value' →
      Alike (change value) (change' value')) :
    Option.Rel Alike (first.map change) (second.map change') := by
  cases h with
  | none => exact .none
  | some hvalue => exact .some (hchange _ _ hvalue)

theorem rel_orElse {other : Option α} {other' : Option β}
    (h : Option.Rel Same first second) (hother : Option.Rel Same other other') :
    Option.Rel Same (first <|> other) (second <|> other') := by
  cases h with
  | none => exact hother
  | some hvalue => exact .some hvalue

theorem rel_cases (h : Option.Rel Same first second) :
    (first = none ∧ second = none) ∨
      ∃ value value', first = some value ∧ second = some value' ∧
        Same value value' := by
  cases h with
  | none => exact .inl ⟨rfl, rfl⟩
  | some hvalue => exact .inr ⟨_, _, rfl, rfl, hvalue⟩

theorem eq_none_of_rel (h : Option.Rel Same none second) : second = none := by
  cases h
  rfl

theorem isSome_eq_of_rel (h : Option.Rel Same first second) :
    first.isSome = second.isSome := by
  cases h <;> rfl

theorem exists_of_rel_some {value : α}
    (h : Option.Rel Same (some value) second) :
    ∃ value', second = some value' ∧ Same value value' := by
  cases h with
  | some hvalue => exact ⟨_, rfl, hvalue⟩

theorem rel_findSome? {values : List γ} {read : γ → Option α}
    {read' : γ → Option β}
    (h : ∀ value ∈ values, Option.Rel Same (read value) (read' value)) :
    Option.Rel Same (values.findSome? read) (values.findSome? read') := by
  induction values with
  | nil => exact .none
  | cons value values ih =>
      rw [List.forall_mem_cons] at h
      rw [List.findSome?_cons, List.findSome?_cons]
      rcases rel_cases h.1 with
        ⟨hnone, hnone'⟩ | ⟨result, result', hsome, hsome', hresult⟩
      · rw [hnone, hnone']
        exact ih h.2
      · rw [hsome, hsome']
        exact .some hresult

theorem rel_eq_iff {other : Option α} :
    Option.Rel Eq first other ↔ first = other := by
  constructor
  · rintro (rfl | rfl) <;> rfl
  · rintro rfl
    cases first with
    | none => exact .none
    | some value => exact .some rfl

theorem Respects.orElse {Same : α → α → Prop}
    {reader other : List Char → Option (α × List Char)}
    (h : Respects Same reader) (hother : Respects Same other) :
    Respects Same fun text => reader text <|> other text :=
  fun _ _ htext => rel_orElse (h htext) (hother htext)

end Related

namespace WithReturns

variable {text other : List Char}

theorem append (h : WithReturns text other) {more more' : List Char}
    (hmore : WithReturns more more') :
    WithReturns (text ++ more) (other ++ more') := by
  induction h with
  | nil => exact hmore
  | cons hc _ ih => exact .cons hc ih
  | newline _ ih => exact .newline ih

theorem refl (h : '\r' ∉ text) : WithReturns text text := by
  induction text with
  | nil => exact .nil
  | cons c text ih =>
      rw [List.mem_cons, not_or] at h
      exact .cons (Ne.symm h.1) (ih h.2)

theorem eq_nil_iff (h : WithReturns text other) : text = [] ↔ other = [] := by
  cases h <;> simp

theorem isEmpty_eq (h : WithReturns text other) :
    text.isEmpty = other.isEmpty := by
  cases h <;> rfl

theorem getLast?_eq (h : WithReturns text other) :
    text.getLast? = other.getLast? := by
  induction h with
  | nil => rfl
  | cons hc h ih => rw [List.getLast?_cons, List.getLast?_cons, ih]
  | newline h ih =>
      rw [List.getLast?_cons, List.getLast?_cons, List.getLast?_cons, ih]
      rfl

theorem mem_iff (h : WithReturns text other) {mark : Char}
    (hmark : isLineBreak mark = false) : mark ∈ text ↔ mark ∈ other := by
  have hreturn : mark ≠ '\r' := by
    rintro rfl
    exact absurd hmark (by decide)
  induction h with
  | nil => rfl
  | cons hc _ ih => simp [ih]
  | newline _ ih => simp [ih, hreturn]

/-- A text in two parts agrees part by part. -/
theorem exists_append {first second : List Char}
    (h : WithReturns (first ++ second) other) :
    ∃ first' second', other = first' ++ second' ∧
      WithReturns first first' ∧ WithReturns second second' := by
  induction first generalizing other with
  | nil => exact ⟨[], other, rfl, .nil, h⟩
  | cons c first ih =>
      cases h with
      | cons hc h =>
          obtain ⟨first', second', rfl, hfirst, hsecond⟩ := ih h
          exact ⟨c :: first', second', rfl, .cons hc hfirst, hsecond⟩
      | newline h =>
          obtain ⟨first', second', rfl, hfirst, hsecond⟩ := ih h
          exact ⟨'\r' :: '\n' :: first', second', rfl, .newline hfirst, hsecond⟩

/-! ### Classes of characters -/

section Class

variable {inClass : Char → Bool} (hclass : inClass '\r' = inClass '\n')

include hclass

theorem all_eq (h : WithReturns text other) :
    text.all inClass = other.all inClass := by
  induction h with
  | nil => rfl
  | cons hc _ ih => rw [List.all_cons, List.all_cons, ih]
  | newline _ ih =>
      rw [List.all_cons, List.all_cons, List.all_cons, ih, hclass,
        ← Bool.and_assoc, Bool.and_self]

theorem dropWhile (h : WithReturns text other) :
    WithReturns (text.dropWhile inClass) (other.dropWhile inClass) := by
  induction h with
  | nil => exact .nil
  | @cons c text other hc h ih =>
      rw [List.dropWhile_cons, List.dropWhile_cons]
      split
      · exact ih
      · exact .cons hc h
  | newline h ih =>
      rw [List.dropWhile_cons, List.dropWhile_cons, hclass]
      split
      next hbreak => rwa [List.dropWhile_cons, if_pos hbreak]
      next => exact .newline h

end Class

/-- Where the class has no line breaks, the same characters come first. -/
theorem takeWhile_eq {inClass : Char → Bool} (hreturn : inClass '\r' = false)
    (hfeed : inClass '\n' = false) (h : WithReturns text other) :
    text.takeWhile inClass = other.takeWhile inClass := by
  induction h with
  | nil => rfl
  | cons hc h ih => rw [List.takeWhile_cons, List.takeWhile_cons, ih]
  | newline h ih =>
      rw [List.takeWhile_cons, List.takeWhile_cons, hreturn, hfeed]
      rfl

end WithReturns

theorem dropWhileEnd_cons (inClass : Char → Bool) (c : Char)
    (text : List Char) :
    dropWhileEnd inClass (c :: text) =
      if (dropWhileEnd inClass text).isEmpty && inClass c then []
      else c :: dropWhileEnd inClass text := by
  unfold dropWhileEnd
  rw [List.reverse_cons, List.dropWhile_append, List.isEmpty_reverse]
  cases text.reverse.dropWhile inClass with
  | nil => cases hc : inClass c <;> simp [hc]
  | cons d rest => simp

namespace WithReturns

variable {text other : List Char}

/-- Both the text without the characters of the class at its end and these
characters agree. -/
theorem dropWhileEnd_drop {inClass : Char → Bool}
    (hclass : inClass '\r' = inClass '\n') (h : WithReturns text other) :
    WithReturns (dropWhileEnd inClass text) (dropWhileEnd inClass other) ∧
      WithReturns (text.drop (dropWhileEnd inClass text).length)
        (other.drop (dropWhileEnd inClass other).length) := by
  induction h with
  | nil => exact ⟨.nil, .nil⟩
  | @cons c text other hc h ih =>
      rw [dropWhileEnd_cons, dropWhileEnd_cons, ih.1.isEmpty_eq]
      split
      · exact ⟨.nil, .cons hc h⟩
      · exact ⟨.cons hc ih.1, ih.2⟩
  | @newline text other h ih =>
      rw [dropWhileEnd_cons inClass '\r', dropWhileEnd_cons inClass '\n',
        dropWhileEnd_cons inClass '\n', ih.1.isEmpty_eq, hclass]
      cases hend : (dropWhileEnd inClass other).isEmpty && inClass '\n' with
      | true =>
          rw [Bool.and_eq_true] at hend
          simp only [if_true, List.isEmpty_nil, hend.2, Bool.and_self]
          exact ⟨.nil, .newline h⟩
      | false => exact ⟨.newline ih.1, ih.2⟩

theorem trimStart (h : WithReturns text other) :
    WithReturns (trimStart text) (trimStart other) :=
  h.dropWhile (by decide)

theorem trimEnd (h : WithReturns text other) :
    WithReturns (trimEnd text) (trimEnd other) :=
  (h.dropWhileEnd_drop (by decide)).1

theorem trim (h : WithReturns text other) :
    WithReturns (trim text) (trim other) :=
  h.trimStart.trimEnd

end WithReturns

/-! ### Patterns -/

theorem eq_of_isLineBreak {c : Char} (h : isLineBreak c = true) :
    c = '\r' ∨ c = '\n' := by
  simpa [isLineBreak] using h

section Pattern

variable {pattern : List Char} (hpattern : pattern.all (!isLineBreak ·) = true)
  {text other : List Char}

include hpattern

theorem after?_isLineBreak {c : Char} (hc : isLineBreak c = true)
    (hne : pattern ≠ []) (text : List Char) :
    after? pattern (c :: text) = none := by
  obtain ⟨p, pattern, rfl⟩ := List.exists_cons_of_ne_nil hne
  rw [List.all_cons, Bool.and_eq_true] at hpattern
  have hp : p ≠ c := by
    rintro rfl
    simp [hc] at hpattern
  simp [after?, List.isPrefixOf?, hp]

theorem WithReturns.after? (h : WithReturns text other) :
    Option.Rel WithReturns (after? pattern text) (after? pattern other) := by
  induction pattern generalizing text other with
  | nil => exact .some h
  | cons p pattern ih =>
      cases h with
      | nil => exact .none
      | @cons c text other hc h =>
          rw [List.all_cons, Bool.and_eq_true] at hpattern
          have hrest := ih hpattern.2 h
          by_cases hp : p = c
          · simpa [Text.after?, List.isPrefixOf?, hp] using hrest
          · simp only [Text.after?, List.isPrefixOf?, beq_iff_eq, hp, if_false]
            exact .none
      | newline h =>
          rw [after?_isLineBreak hpattern rfl (by simp),
            after?_isLineBreak hpattern rfl (by simp)]
          exact .none

theorem respects_cut? (hne : pattern ≠ []) :
    Respects WithReturns (cut? pattern) := by
  intro text other h
  have hnone : Text.after? pattern [] = none := by
    cases pattern with
    | nil => exact absurd rfl hne
    | cons p pattern => rfl
  induction h with
  | nil =>
      rw [cut?, hnone]
      exact .none
  | @cons c text other hc h ih =>
      rw [cut?, cut?]
      rcases rel_cases ((h.cons hc).after? hpattern) with
        ⟨hnone, hnone'⟩ | ⟨rest, rest', hsome, hsome', hrest⟩
      · rw [hnone, hnone']
        exact rel_map ih fun _ _ hparts => ⟨.cons hc hparts.1, hparts.2⟩
      · rw [hsome, hsome']
        exact .some ⟨.nil, hrest⟩
  | @newline text other h ih =>
      have hnone {c : Char} (hc : isLineBreak c = true) (below : List Char) :
          Text.after? pattern (c :: below) = none :=
        after?_isLineBreak hpattern hc hne below
      rw [cut?, cut?, cut?, hnone rfl, hnone rfl, hnone rfl]
      simp only [Option.map_map]
      exact rel_map ih fun _ _ hparts => ⟨.newline hparts.1, hparts.2⟩

end Pattern

/-! ### Marks -/

theorem cutLast?_eq_none_iff {mark : Char} {text : List Char} :
    cutLast? mark text = none ↔ mark ∉ text := by
  constructor
  · intro hnone hmem
    rw [cutLast?, List.span_eq_takeWhile_dropWhile] at hnone
    cases hdrop : text.reverse.dropWhile (· != mark) with
    | nil =>
        rw [List.dropWhile_eq_nil_iff] at hdrop
        simpa using hdrop mark (List.mem_reverse.mpr hmem)
    | cons c rest =>
        rw [hdrop] at hnone
        cases hnone
  · intro hmem
    cases hcut : cutLast? mark text with
    | none => rfl
    | some parts =>
        rw [eq_of_cutLast?_eq_some hcut] at hmem
        exact absurd (by simp) hmem

section Mark

variable {mark : Char} (hmark : isLineBreak mark = false)
  {text other : List Char}

include hmark

theorem WithReturns.exists_cons (h : WithReturns (mark :: text) other) :
    ∃ rest, other = mark :: rest ∧ WithReturns text rest := by
  cases h with
  | cons hc h => exact ⟨_, rfl, h⟩
  | newline h => exact absurd hmark (by decide)

theorem WithReturns.beforeFinal? (h : WithReturns text other) :
    Option.Rel WithReturns (beforeFinal? mark text)
      (beforeFinal? mark other) := by
  by_cases hlast : text.getLast? = some mark
  · obtain ⟨before, rfl⟩ := List.getLast?_eq_some_iff.mp hlast
    obtain ⟨before', last, rfl, hbefore, hmore⟩ := h.exists_append
    obtain ⟨rest, rfl, hrest⟩ := hmore.exists_cons hmark
    obtain rfl := hrest.eq_nil_iff.mp rfl
    rw [beforeFinal?_concat, beforeFinal?_concat]
    exact .some hbefore
  · rw [beforeFinal?_eq_none hlast,
      beforeFinal?_eq_none (by rwa [← h.getLast?_eq])]
    exact .none

theorem respects_cutLast? : Respects WithReturns (cutLast? mark) := by
  intro text other h
  cases hcut : cutLast? mark text with
  | none =>
      rw [cutLast?_eq_none_iff, h.mem_iff hmark] at hcut
      rw [cutLast?_eq_none_iff.mpr hcut]
      exact .none
  | some parts =>
      obtain ⟨before, last⟩ := parts
      have hlast := not_mem_of_cutLast? hcut
      rw [eq_of_cutLast?_eq_some hcut] at h
      obtain ⟨before', more, rfl, hbefore, hmore⟩ := h.exists_append
      obtain ⟨last', rfl, hrest⟩ := hmore.exists_cons hmark
      rw [hrest.mem_iff hmark] at hlast
      rw [cutLast?_append hlast]
      exact .some ⟨hbefore, hrest⟩

end Mark

/-! ### Words and lines -/

/-- A line and the same line with a carriage return at its end. -/
def WithReturn (line other : List Char) : Prop :=
  other = line ∨ other = line ++ ['\r']

/-- The pieces between white space are the same, up to empty ones behind the
first. -/
theorem WithReturns.exists_splitOnP {text other : List Char}
    (h : WithReturns text other) :
    ∃ first rest rest', text.splitOnP isWhiteSpace = first :: rest ∧
      other.splitOnP isWhiteSpace = first :: rest' ∧
      rest.filter (!·.isEmpty) = rest'.filter (!·.isEmpty) := by
  induction h with
  | nil => exact ⟨[], [], [], rfl, rfl, rfl⟩
  | @cons c text other hc h ih =>
      obtain ⟨first, rest, rest', htext, hother, hrest⟩ := ih
      rw [List.splitOnP_cons_eq_if_modifyHead, htext,
        List.splitOnP_cons_eq_if_modifyHead, hother]
      split
      · refine ⟨[], _, _, rfl, rfl, ?_⟩
        rw [List.filter_cons, hrest, List.filter_cons]
      · exact ⟨c :: first, rest, rest', rfl, rfl, hrest⟩
  | @newline text other h ih =>
      obtain ⟨first, rest, rest', htext, hother, hrest⟩ := ih
      have hreturn : isWhiteSpace '\r' = true := by decide
      have hfeed : isWhiteSpace '\n' = true := by decide
      rw [List.splitOnP_cons_eq_if_modifyHead, if_pos hfeed, htext,
        List.splitOnP_cons_eq_if_modifyHead, if_pos hreturn,
        List.splitOnP_cons_eq_if_modifyHead, if_pos hfeed, hother]
      refine ⟨[], _, _, rfl, rfl, ?_⟩
      simp [List.filter_cons, hrest]

theorem WithReturns.words_eq {text other : List Char}
    (h : WithReturns text other) : words text = words other := by
  obtain ⟨first, rest, rest', htext, hother, hrest⟩ := h.exists_splitOnP
  rw [words, words, htext, hother, List.filter_cons, hrest, List.filter_cons]

theorem lines_cons (c : Char) (text : List Char) :
    lines (c :: text) =
      if c = '\n' then [] :: lines text
      else (lines text).modifyHead (c :: ·) := by
  simp [lines, List.splitOn_cons_eq_if_modifyHead]

theorem WithReturns.lines {text other : List Char}
    (h : WithReturns text other) :
    List.Forall₂ WithReturn (lines text) (lines other) := by
  induction h with
  | nil => exact .cons (.inl rfl) .nil
  | @cons c text other hc h ih =>
      rw [lines_cons, lines_cons]
      split
      · exact .cons (.inl rfl) ih
      · revert ih
        generalize Text.lines text = first
        generalize Text.lines other = second
        intro ih
        cases ih with
        | nil => exact .nil
        | cons hline hbelow =>
            refine .cons ?_ hbelow
            rcases hline with rfl | rfl
            · exact .inl rfl
            · exact .inr rfl
  | newline h ih =>
      rw [lines_cons, lines_cons, lines_cons, if_pos rfl, if_pos rfl,
        if_neg (by decide)]
      exact .cons (.inr rfl) ih

end Flowchart.Text
