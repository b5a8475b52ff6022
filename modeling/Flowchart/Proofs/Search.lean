import Flowchart.Text.Basic
import Mathlib.Data.List.Infix

/-!
# Occurrences of a pattern

`cut?` finds the first occurrence of a pattern.  A stretch of text can be
skipped if no occurrence starts in it, be it that the occurrence would lie
inside or that it would run on into the text behind.  A pattern that nowhere
overlaps itself cannot run on into its own first occurrence.
-/

namespace Flowchart.Text

theorem after?_eq_some_iff {pattern text rest : List Char} :
    after? pattern text = some rest ↔ text = pattern ++ rest := by
  unfold after?
  induction pattern generalizing text with
  | nil => simp [List.isPrefixOf?, eq_comm]
  | cons p pattern ih =>
      cases text with
      | nil => simp [List.isPrefixOf?]
      | cons c text =>
          by_cases hc : p = c
          · subst hc
            simp [List.isPrefixOf?, ih]
          · simp [List.isPrefixOf?, hc, Ne.symm hc]

@[simp] theorem after?_append (pattern rest : List Char) :
    after? pattern (pattern ++ rest) = some rest :=
  after?_eq_some_iff.mpr rfl

@[simp] theorem after?_singleton (c : Char) (rest : List Char) :
    after? [c] (c :: rest) = some rest :=
  after?_append [c] rest

theorem after?_singleton_cons (c d : Char) (rest : List Char) :
    after? [c] (d :: rest) = if c = d then some rest else none := by
  split
  next h => exact h ▸ after?_singleton c rest
  next h => simp [after?, List.isPrefixOf?, h]

theorem after?_eq_none_iff {pattern text : List Char} :
    after? pattern text = none ↔ ¬ pattern <+: text := by
  rw [Option.eq_none_iff_forall_not_mem]
  simp only [Option.mem_def, after?_eq_some_iff]
  constructor
  · rintro h ⟨rest, rfl⟩
    exact h rest rfl
  · rintro h rest rfl
    exact h (List.prefix_append pattern rest)

theorem prefix_append_cases {pattern first second : List Char}
    (h : pattern <+: first ++ second) :
    pattern <+: first ∨
      ∃ more, pattern = first ++ more ∧ more ≠ [] ∧ more <+: second := by
  obtain ⟨rest, hrest⟩ := h
  rcases List.append_eq_append_iff.mp hrest with
    ⟨more, hfirst, -⟩ | ⟨more, hpattern, hsecond⟩
  · exact .inl ⟨more, hfirst.symm⟩
  · by_cases hmore : more = []
    · subst hmore
      exact .inl ⟨[], by simpa using hpattern⟩
    · exact .inr ⟨more, hpattern, hmore, rest, hsecond.symm⟩

theorem eq_of_beforeFinal?_eq_some {mark : Char} {text before : List Char}
    (h : beforeFinal? mark text = some before) : text = before ++ [mark] := by
  rw [beforeFinal?] at h
  split at h
  next => exact absurd h (by simp)
  next c rest hreverse =>
    split at h
    next hc =>
      rw [← Option.some.inj h, ← hc, ← List.reverse_cons, ← hreverse,
        List.reverse_reverse]
    next => exact absurd h (by simp)

theorem eq_of_cutLast?_eq_some {mark : Char} {text before last : List Char}
    (h : cutLast? mark text = some (before, last)) :
    text = before ++ mark :: last := by
  rw [cutLast?, List.span_eq_takeWhile_dropWhile] at h
  have hsplit : text.reverse.takeWhile (· != mark) ++
      text.reverse.dropWhile (· != mark) = text.reverse :=
    List.takeWhile_append_dropWhile
  have hhead := List.head?_dropWhile_not (· != mark) text.reverse
  cases hdrop : text.reverse.dropWhile (· != mark) with
  | nil =>
      rw [hdrop] at h
      exact absurd h (by simp)
  | cons c rest =>
      rw [hdrop] at h hsplit hhead
      obtain rfl : c = mark := by simpa using hhead
      obtain ⟨rfl, rfl⟩ := Prod.mk.inj (Option.some.inj h)
      have htext := congrArg List.reverse hsplit
      rw [List.reverse_reverse] at htext
      exact htext.symm.trans (by simp)

/-! ### The first occurrence -/

theorem cut?_pattern (pattern rest : List Char) :
    cut? pattern (pattern ++ rest) = some ([], rest) := by
  cases htext : pattern ++ rest with
  | nil =>
      obtain ⟨rfl, rfl⟩ := List.append_eq_nil_iff.mp htext
      rfl
  | cons c text =>
      rw [cut?, ← htext, after?_append]

/-- A stretch in which no occurrence starts belongs to what stands before the
first occurrence. -/
theorem cut?_append {pattern before text : List Char}
    (h : ∀ start stretch, before = start ++ stretch → stretch ≠ [] →
      ¬ pattern <+: stretch ++ text) :
    cut? pattern (before ++ text) =
      (cut? pattern text).map fun (inner, rest) => (before ++ inner, rest) := by
  induction before with
  | nil => simp
  | cons c before ih =>
      have hhead : after? pattern (c :: (before ++ text)) = none :=
        after?_eq_none_iff.mpr (h [] (c :: before) rfl (by simp))
      have htail : ∀ start stretch, before = start ++ stretch →
          stretch ≠ [] → ¬ pattern <+: stretch ++ text := by
        intro start stretch heq
        exact h (c :: start) stretch (by rw [heq, List.cons_append])
      rw [List.cons_append, cut?, hhead, ih htail, Option.map_map]
      rfl

theorem cut?_eq_none_iff {pattern text : List Char} :
    cut? pattern text = none ↔ ¬ pattern <:+: text := by
  induction text with
  | nil => simp [cut?, after?_eq_none_iff]
  | cons c text ih =>
      rw [List.infix_cons_iff, not_or, ← after?_eq_none_iff, ← ih, cut?]
      cases after? pattern (c :: text) <;> simp

theorem eq_of_cut?_eq_some {pattern text before rest : List Char}
    (h : cut? pattern text = some (before, rest)) :
    text = before ++ pattern ++ rest := by
  induction text generalizing before with
  | nil =>
      obtain ⟨more, hmore, heq⟩ := Option.map_eq_some_iff.mp h
      obtain ⟨rfl, rfl⟩ := Prod.mk.inj heq
      simpa using after?_eq_some_iff.mp hmore
  | cons c text ih =>
      rw [cut?] at h
      split at h
      next more hmore =>
        obtain ⟨rfl, rfl⟩ := Prod.mk.inj (Option.some.inj h)
        simpa using after?_eq_some_iff.mp hmore
      next =>
        obtain ⟨⟨inner, more⟩, hinner, heq⟩ := Option.map_eq_some_iff.mp h
        obtain ⟨rfl, rfl⟩ := Prod.mk.inj heq
        simp [ih hinner]

theorem cut?_append_right {pattern text before rest : List Char}
    (h : cut? pattern text = some (before, rest)) (more : List Char) :
    cut? pattern (text ++ more) = some (before, rest ++ more) := by
  induction text generalizing before with
  | nil =>
      obtain ⟨rest', hrest, heq⟩ := Option.map_eq_some_iff.mp h
      obtain ⟨rfl, rfl⟩ := Prod.mk.inj heq
      obtain ⟨rfl, rfl⟩ :=
        List.append_eq_nil_iff.mp (after?_eq_some_iff.mp hrest).symm
      exact cut?_pattern [] more
  | cons c text ih =>
      rw [cut?] at h
      rw [List.cons_append, cut?]
      cases hafter : after? pattern (c :: text) with
      | some rest' =>
          rw [hafter] at h
          obtain ⟨rfl, rfl⟩ := Prod.mk.inj (Option.some.inj h)
          have hmore : after? pattern (c :: (text ++ more)) =
              some (rest' ++ more) := by
            rw [after?_eq_some_iff, ← List.append_assoc,
              ← after?_eq_some_iff.mp hafter, List.cons_append]
          rw [hmore]
      | none =>
          rw [hafter] at h
          obtain ⟨⟨inner, rest'⟩, hinner, heq⟩ := Option.map_eq_some_iff.mp h
          obtain ⟨rfl, rfl⟩ := Prod.mk.inj heq
          -- The text is at least as long as the pattern that it holds.
          have hmore : after? pattern (c :: (text ++ more)) = none := by
            rw [after?_eq_none_iff] at hafter ⊢
            intro hprefix
            apply hafter
            apply List.prefix_of_prefix_length_le hprefix
              (List.prefix_append (c :: text) more)
            rw [eq_of_cut?_eq_some hinner]
            simp only [List.length_cons, List.length_append]
            omega
          rw [hmore, ih hinner]
          rfl

theorem not_infix_of_cut?_eq_some {pattern text before rest : List Char}
    (hpattern : pattern ≠ []) (h : cut? pattern text = some (before, rest)) :
    ¬ pattern <:+: before := by
  intro hinside
  obtain ⟨⟨start, more⟩, hcut⟩ := Option.ne_none_iff_exists'.mp
    (mt cut?_eq_none_iff.mp (not_not.mpr hinside))
  -- What comes first in `before` comes first in the whole text.
  have hwhole := cut?_append_right hcut (pattern ++ rest)
  rw [← List.append_assoc, ← eq_of_cut?_eq_some h, h] at hwhole
  have hstart : before = start := (Prod.mk.inj (Option.some.inj hwhole)).1
  have hlength := congrArg List.length (eq_of_cut?_eq_some hcut)
  rw [hstart, List.length_append, List.length_append] at hlength
  have := List.length_pos_of_ne_nil hpattern
  omega

/-- No proper end of the pattern is also its beginning. -/
def IsUnbordered (pattern : List Char) : Prop :=
  ∀ n < pattern.length, 0 < n → ¬ pattern.drop n <+: pattern

instance (pattern : List Char) : Decidable (IsUnbordered pattern) :=
  inferInstanceAs (Decidable (∀ n < pattern.length, 0 < n → _))

theorem not_starts_before_of_isUnbordered {pattern before : List Char}
    (hpattern : IsUnbordered pattern) (hbefore : ¬ pattern <:+: before)
    (rest start stretch : List Char) (hstretch : before = start ++ stretch)
    (hne : stretch ≠ []) : ¬ pattern <+: stretch ++ (pattern ++ rest) := by
  intro hoccurs
  rcases prefix_append_cases hoccurs with hinside | ⟨more, heq, hmore, hlap⟩
  · apply hbefore
    rw [hstretch]
    exact List.infix_append_of_infix_right hinside.isInfix
  · have hlength : stretch.length < pattern.length := by
      rw [heq, List.length_append]
      have := List.length_pos_of_ne_nil hmore
      omega
    apply hpattern stretch.length hlength (List.length_pos_of_ne_nil hne)
    have hdrop : pattern.drop stretch.length = more := by
      rw [heq, List.drop_left]
    rw [hdrop]
    apply List.prefix_of_prefix_length_le hlap
      (List.prefix_append pattern rest)
    rw [heq, List.length_append]
    omega

theorem cut?_of_isUnbordered {pattern before : List Char}
    (hpattern : IsUnbordered pattern) (hbefore : ¬ pattern <:+: before)
    (rest : List Char) :
    cut? pattern (before ++ (pattern ++ rest)) = some (before, rest) := by
  rw [cut?_append
    (not_starts_before_of_isUnbordered hpattern hbefore rest), cut?_pattern]
  simp

end Flowchart.Text
