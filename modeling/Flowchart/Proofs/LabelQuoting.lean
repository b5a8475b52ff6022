import Flowchart.Proofs.Keywords
import Flowchart.Proofs.Quotes
import Flowchart.Proofs.Trimming
import Flowchart.Source.Sanitize

/-!
# Quoting labels

The rule for labels looks ahead for a closing bracket and leaves its own result
alone: between the brackets that it has put in quotes the brackets still match,
and whatever it has passed over it passes over again.
-/

namespace Flowchart.Sanitize

open Text

/-! ### Matching brackets -/

/-- The brackets that are open behind the text, if it neither closes more
brackets than are open nor ends the line. -/
def depthAfter? : Nat → List Char → Option Nat
  | depth, [] => some depth
  | depth, c :: rest =>
    if c = '\n' then none
    else if c = ']' ∧ depth = 0 then none
    else
      depthAfter?
        (if c = '[' then depth + 1 else if c = ']' then depth - 1 else depth)
        rest

theorem depthAfter?_append {depth inner : Nat} {first : List Char}
    (h : depthAfter? depth first = some inner) (second : List Char) :
    depthAfter? depth (first ++ second) = depthAfter? inner second := by
  induction first generalizing depth with
  | nil =>
      obtain rfl := Option.some.inj h
      rfl
  | cons c first ih =>
      rw [depthAfter?] at h
      rw [List.cons_append, depthAfter?]
      split at h
      next => exact absurd h (by simp)
      next hbreak =>
        split at h
        next => exact absurd h (by simp)
        next hclose => rw [if_neg hbreak, if_neg hclose, ih h]

theorem depthAfter?_add {depth inner : Nat} {text : List Char}
    (h : depthAfter? depth text = some inner) (more : Nat) :
    depthAfter? (depth + more) text = some (inner + more) := by
  induction text generalizing depth with
  | nil =>
      obtain rfl := Option.some.inj h
      rfl
  | cons c text ih =>
      rw [depthAfter?] at h ⊢
      split at h
      next => exact absurd h (by simp)
      next hbreak =>
        split at h
        next => exact absurd h (by simp)
        next hclose =>
          have hopen : ¬ (c = ']' ∧ depth + more = 0) :=
            fun hboth => hclose ⟨hboth.1, by omega⟩
          rw [if_neg hbreak, if_neg hopen, ← ih h]
          congr 1
          grind

theorem depthAfter?_escape (depth : Nat) (text : List Char) :
    depthAfter? depth (escape text) = depthAfter? depth text := by
  induction text generalizing depth with
  | nil => rfl
  | cons c text ih =>
      rw [escape_cons]
      split
      next => simp [depthAfter?, ih]
      next => simp [depthAfter?, ih]

theorem not_mem_of_depthAfter? {depth inner : Nat} {text : List Char}
    (h : depthAfter? depth text = some inner) : '\n' ∉ text := by
  induction text generalizing depth with
  | nil => simp
  | cons c text ih =>
      rw [depthAfter?] at h
      split at h
      next => exact absurd h (by simp)
      next hbreak =>
        split at h
        next => exact absurd h (by simp)
        next => simpa [ih h] using Ne.symm hbreak

theorem closing?_append {depth inner : Nat} {text : List Char}
    (h : depthAfter? depth text = some inner) (rest : List Char) :
    closing? depth (text ++ rest) =
      (closing? inner rest).map fun (body, after) => (text ++ body, after) := by
  induction text generalizing depth with
  | nil =>
      obtain rfl := Option.some.inj h
      simp
  | cons c text ih =>
      rw [depthAfter?] at h
      rw [List.cons_append, closing?]
      split at h
      next => exact absurd h (by simp)
      next hbreak =>
        split at h
        next => exact absurd h (by simp)
        next hclose =>
          rw [if_neg hbreak, if_neg hclose]
          simp only [ih h, Option.map_map]
          rfl

theorem closing?_eq_some_iff {depth : Nat} {text body after : List Char} :
    closing? depth text = some (body, after) ↔
      text = body ++ ']' :: after ∧ depthAfter? depth body = some 0 := by
  constructor
  · intro h
    induction text generalizing depth body with
    | nil => exact absurd h (by simp [closing?])
    | cons c text ih =>
        rw [closing?] at h
        split at h
        next => exact absurd h (by simp)
        next hbreak =>
          split at h
          next hclose =>
            obtain ⟨rfl, rfl⟩ := Prod.mk.inj (Option.some.inj h)
            rw [hclose.1, hclose.2]
            exact ⟨rfl, rfl⟩
          next hclose =>
            obtain ⟨⟨inner, rest⟩, hinner, heq⟩ := Option.map_eq_some_iff.mp h
            obtain ⟨rfl, rfl⟩ := Prod.mk.inj heq
            obtain ⟨htext, hdepth⟩ := ih hinner
            rw [depthAfter?, if_neg hbreak, if_neg hclose]
            exact ⟨by rw [htext, List.cons_append], hdepth⟩
  · rintro ⟨rfl, hdepth⟩
    rw [closing?_append hdepth]
    simp [closing?]

theorem depthAfter?_brackets {body : List Char}
    (h : depthAfter? 0 body = some 0) (depth : Nat) :
    depthAfter? depth ('[' :: body ++ [']']) = some depth := by
  have hinner : depthAfter? (depth + 1) body = some (depth + 1) := by
    have := depthAfter?_add h (depth + 1)
    rwa [Nat.zero_add] at this
  have hbody := depthAfter?_append hinner [']']
  simpa [depthAfter?] using hbody

theorem depthAfter?_quotedLabel {body : List Char}
    (h : depthAfter? 0 body = some 0) (depth : Nat) :
    depthAfter? depth (quotedLabel body) = some depth := by
  have hinner : depthAfter? 0 ('"' :: escape body ++ ['"']) = some 0 := by
    have hescape := depthAfter?_append
      ((depthAfter?_escape 0 body).trans h) ['"']
    simpa [depthAfter?] using hescape
  have hshape : quotedLabel body =
      '[' :: ('"' :: escape body ++ ['"']) ++ [']'] := by
    simp [quotedLabel]
  rw [hshape]
  exact depthAfter?_brackets hinner depth

/-! ### The rule as a relation -/

theorem bareLabel?_eq_some_iff {previous : Option Char}
    {rest body after : List Char} :
    bareLabel? previous rest = some (body, after) ↔
      previous.any isIdChar = true ∧ opensLabel rest = true ∧
        rest = body ++ ']' :: after ∧ depthAfter? 0 body = some 0 ∧
        needsQuotes body = true := by
  rw [bareLabel?]
  split
  next h =>
    rw [Bool.and_eq_true] at h
    rw [Option.filter_eq_some_iff, closing?_eq_some_iff]
    simp [h, and_assoc]
  next h =>
    rw [Bool.and_eq_true] at h
    simp only [reduceCtorEq, false_iff]
    rintro ⟨hprevious, hopens, -⟩
    exact h ⟨hprevious, hopens⟩

theorem quoteLabelsFrom_of_some {previous : Option Char}
    {rest body after : List Char}
    (h : bareLabel? previous rest = some (body, after)) :
    quoteLabelsFrom .closed previous ('[' :: rest) =
      quotedLabel body ++ quoteLabelsFrom .closed (some ']') after := by
  rw [quoteLabelsFrom, if_pos ⟨rfl, rfl⟩]
  split
  next body' after' h' =>
    obtain ⟨rfl, rfl⟩ := Prod.mk.inj (Option.some.inj (h.symm.trans h'))
    rfl
  next h' => exact absurd (h.symm.trans h') (by simp)

theorem quoteLabelsFrom_of_none {quote : Quote} {previous : Option Char}
    {c : Char} {rest : List Char}
    (h : quote = .closed → c = '[' → bareLabel? previous rest = none) :
    quoteLabelsFrom quote previous (c :: rest) =
      c :: quoteLabelsFrom (quote.step c) (some c) rest := by
  rw [quoteLabelsFrom]
  split
  next hlabel =>
    obtain ⟨rfl, rfl⟩ := hlabel
    split
    next body after h' => exact absurd ((h rfl rfl).symm.trans h') (by simp)
    next => rfl
  next => rfl

/-- The rule goes through a text character by character, or over a whole
label. -/
inductive Quoting : Quote → Option Char → List Char → List Char → Prop where
  | nil {quote : Quote} {previous : Option Char} : Quoting quote previous [] []
  | keep {quote : Quote} {previous : Option Char} {c : Char}
      {rest out : List Char}
      (h : quote = .closed → c = '[' → bareLabel? previous rest = none)
      (hrest : Quoting (quote.step c) (some c) rest out) :
      Quoting quote previous (c :: rest) (c :: out)
  | label {previous : Option Char} {body after out : List Char}
      (h : bareLabel? previous (body ++ ']' :: after) = some (body, after))
      (hafter : Quoting .closed (some ']') after out) :
      Quoting .closed previous ('[' :: (body ++ ']' :: after))
        (quotedLabel body ++ out)

theorem quoting (quote : Quote) (previous : Option Char) (text : List Char) :
    Quoting quote previous text (quoteLabelsFrom quote previous text) := by
  induction hn : text.length using Nat.strong_induction_on
    generalizing quote previous text with
  | _ n ih =>
      cases text with
      | nil =>
          rw [quoteLabelsFrom]
          exact .nil
      | cons c rest =>
          subst hn
          by_cases hlabel : ∃ body after, quote = .closed ∧ c = '[' ∧
              bareLabel? previous rest = some (body, after)
          · obtain ⟨body, after, rfl, rfl, h⟩ := hlabel
            have hrest := (bareLabel?_eq_some_iff.mp h).2.2.1
            rw [quoteLabelsFrom_of_some h]
            subst hrest
            exact .label h (ih _ (by simp; omega) _ _ _ rfl)
          · have h : quote = .closed → c = '[' →
                bareLabel? previous rest = none := by
              intro hquote hc
              rw [Option.eq_none_iff_forall_ne_some]
              rintro ⟨body, after⟩ hsome
              exact hlabel ⟨body, after, hquote, hc, hsome⟩
            rw [quoteLabelsFrom_of_none h]
            exact .keep h (ih _ (by simp) _ _ _ rfl)

theorem getLast?_quotedLabel (body : List Char) :
    (quotedLabel body).getLast? = some ']' := by
  have hshape : quotedLabel body =
      ('[' :: '"' :: escape body ++ ['"']) ++ [']'] := by
    simp [quotedLabel]
  rw [hshape, List.getLast?_concat]

namespace Quoting

variable {quote : Quote} {previous : Option Char} {text out : List Char}

theorem head?_eq (h : Quoting quote previous text out) :
    out.head? = text.head? := by
  cases h with
  | nil => rfl
  | keep => rfl
  | label => rfl

theorem getLast?_eq (h : Quoting quote previous text out) :
    out.getLast? = text.getLast? := by
  induction h with
  | nil => rfl
  | keep _ _ ih => rw [List.getLast?_cons, List.getLast?_cons, ih]
  | @label _ body after out _ _ ih =>
      have htext : '[' :: (body ++ ']' :: after) =
          ('[' :: body ++ [']']) ++ after := by simp
      have hbody : ('[' :: body ++ [']']).getLast? = some ']' :=
        List.getLast?_concat
      rw [htext, List.getLast?_append, List.getLast?_append, ih, hbody,
        getLast?_quotedLabel]

/-- A closing bracket is found in the result just where there was one. -/
theorem isSome_closing? (h : Quoting quote previous text out) (depth : Nat) :
    (closing? depth out).isSome = (closing? depth text).isSome := by
  induction h generalizing depth with
  | nil => rfl
  | keep _ _ ih =>
      rw [closing?, closing?]
      split
      next => rfl
      next =>
        split
        next => rfl
        next => simp [ih]
  | @label _ body after out h _ ih =>
      have hbody := (bareLabel?_eq_some_iff.mp h).2.2.2.1
      have htext : '[' :: (body ++ ']' :: after) =
          ('[' :: body ++ [']']) ++ after := by simp
      rw [htext, closing?_append (depthAfter?_brackets hbody depth),
        closing?_append (depthAfter?_quotedLabel hbody depth)]
      simp [ih]

theorem of_not_mem (h : Quoting quote previous text out)
    {plain rest : List Char} (htext : text = plain ++ rest)
    (hplain : '[' ∉ plain) :
    ∃ more, out = plain ++ more ∧ more.head? = rest.head? := by
  induction plain generalizing quote previous text out with
  | nil => exact ⟨out, rfl, by rw [h.head?_eq, htext]; rfl⟩
  | cons c plain ih =>
      rw [List.mem_cons, not_or] at hplain
      cases h with
      | nil => exact absurd htext (by simp)
      | keep _ hrest =>
          obtain ⟨rfl, hrestEq⟩ := List.cons.inj htext
          obtain ⟨more, rfl, hhead⟩ := ih hrest hrestEq hplain.2
          exact ⟨more, rfl, hhead⟩
      | label => exact absurd (List.cons.inj htext).1 hplain.1

end Quoting

/-! ### Text that the rule leaves alone -/

/-- The rule finds nothing to quote. -/
def IsQuiet : Quote → Option Char → List Char → Prop
  | _, _, [] => True
  | quote, previous, c :: rest =>
    (quote = .closed → c = '[' → bareLabel? previous rest = none) ∧
      IsQuiet (quote.step c) (some c) rest

theorem opensLabel_congr {first second : List Char}
    (h : first.head? = second.head?) : opensLabel first = opensLabel second := by
  cases first with
  | nil =>
      cases second with
      | nil => rfl
      | cons c second => exact absurd h (by simp)
  | cons c first =>
      cases second with
      | nil => exact absurd h (by simp)
      | cons d second =>
          obtain rfl : c = d := by simpa using h
          rfl

theorem bareLabel?_of_quoted (previous : Option Char)
    (rest : List Char) : bareLabel? previous ('"' :: rest) = none := by
  simp [bareLabel?, opensLabel]

theorem quoteLabelsFrom_eq_self_iff {quote : Quote} {previous : Option Char}
    {text : List Char} :
    quoteLabelsFrom quote previous text = text ↔
      IsQuiet quote previous text := by
  induction text generalizing quote previous with
  | nil => simp [quoteLabelsFrom, IsQuiet]
  | cons c rest ih =>
      rw [IsQuiet]
      constructor
      · intro h
        have hnone : quote = .closed → c = '[' →
            bareLabel? previous rest = none := by
          rintro rfl rfl
          rw [Option.eq_none_iff_forall_ne_some]
          rintro ⟨body, after⟩ hsome
          rw [quoteLabelsFrom_of_some hsome] at h
          have hrest : rest.head? = some '"' :=
            congrArg List.head? (List.cons.inj h).2.symm
          cases rest with
          | nil => exact absurd hrest (by simp)
          | cons d rest =>
              obtain rfl : d = '"' := by simpa using hrest
              rw [bareLabel?_of_quoted] at hsome
              exact absurd hsome (by simp)
        rw [quoteLabelsFrom_of_none hnone] at h
        exact ⟨hnone, ih.mp (List.cons.inj h).2⟩
      · rintro ⟨hnone, hrest⟩
        rw [quoteLabelsFrom_of_none hnone, ih.mpr hrest]

theorem isQuiet_escape {rest : List Char}
    (h : ∀ previous, IsQuiet .opened previous rest) (body : List Char)
    (previous : Option Char) :
    IsQuiet .opened previous (escape body ++ rest) := by
  induction body generalizing previous with
  | nil => exact h previous
  | cons c body ih =>
      rw [escape_cons]
      split
      next => exact ⟨by simp, by simp [Quote.step], ih (some c)⟩
      next hplain =>
        rw [not_or] at hplain
        refine ⟨by simp, ?_⟩
        have hstep : Quote.opened.step c = .opened := by
          rw [Quote.step, if_neg hplain.1, if_neg hplain.2]
        rw [hstep]
        exact ih (some c)

/-- A label that gets its quotes has them, and any other one is left alone
again. -/
theorem Quoting.isQuiet {quote : Quote} {previous : Option Char}
    {text out : List Char} (h : Quoting quote previous text out) :
    IsQuiet quote previous out := by
  induction h with
  | nil => trivial
  | @keep quote previous c rest out h hrest ih =>
      refine ⟨?_, ih⟩
      intro hquote hc
      rw [Option.eq_none_iff_forall_ne_some]
      rintro ⟨body, after⟩ hsome
      obtain ⟨hprevious, hopens, hout, hdepth, hneeds⟩ :=
        bareLabel?_eq_some_iff.mp hsome
      have hclosing : (closing? 0 rest).isSome = true := by
        rw [← hrest.isSome_closing?,
          closing?_eq_some_iff.mpr ⟨hout, hdepth⟩]
        rfl
      obtain ⟨⟨plain, more⟩, hplain⟩ := Option.isSome_iff_exists.mp hclosing
      obtain ⟨hrestEq, hplainDepth⟩ := closing?_eq_some_iff.mp hplain
      have hopensRest : opensLabel rest = true := by
        rw [← opensLabel_congr hrest.head?_eq, hopens]
      -- The label had no punctuation, so that the rule did not change it.
      have hbare : needsQuotes plain = false := by
        by_contra hneedsPlain
        have := bareLabel?_eq_some_iff.mpr ⟨hprevious, hopensRest, hrestEq,
          hplainDepth, Bool.not_eq_false _ ▸ hneedsPlain⟩
        rw [h hquote hc] at this
        exact absurd this (by simp)
      have hbracket : '[' ∉ plain := by
        intro hmem
        have : needsQuotes plain = true :=
          List.any_eq_true.mpr ⟨'[', hmem, by decide⟩
        rw [hbare] at this
        exact Bool.noConfusion this
      obtain ⟨later, rfl, hlater⟩ := hrest.of_not_mem hrestEq hbracket
      obtain ⟨tail, rfl⟩ : ∃ tail, later = ']' :: tail := by
        cases later with
        | nil => exact absurd hlater (by simp)
        | cons d tail => exact ⟨tail, by simpa using hlater⟩
      have hsame := closing?_eq_some_iff.mpr
        ⟨(rfl : plain ++ ']' :: tail = plain ++ ']' :: tail), hplainDepth⟩
      rw [closing?_eq_some_iff.mpr ⟨hout, hdepth⟩] at hsame
      rw [(Prod.mk.inj (Option.some.inj hsame)).1, hbare] at hneeds
      exact Bool.noConfusion hneeds
  | @label previous body after out h _ ih =>
      have hclosed : ∀ previous, IsQuiet .opened previous ('"' :: ']' :: out) :=
        fun _ => ⟨by simp, by simp, ih⟩
      have hquoted : quotedLabel body ++ out =
          '[' :: '"' :: (escape body ++ '"' :: ']' :: out) := by
        simp [quotedLabel]
      rw [hquoted]
      exact ⟨fun _ _ => bareLabel?_of_quoted _ _, by simp,
        isQuiet_escape hclosed body _⟩

theorem quoteLabelsFrom_quoteLabelsFrom (quote : Quote)
    (previous : Option Char) (text : List Char) :
    quoteLabelsFrom quote previous (quoteLabelsFrom quote previous text) =
      quoteLabelsFrom quote previous text :=
  quoteLabelsFrom_eq_self_iff.mpr (quoting quote previous text).isQuiet

theorem isQuiet_congr {quote : Quote} {previous other : Option Char}
    (h : previous.any isIdChar = other.any isIdChar) {text : List Char} :
    IsQuiet quote previous text ↔ IsQuiet quote other text := by
  cases text with
  | nil => exact Iff.rfl
  | cons c rest => rw [IsQuiet, IsQuiet, bareLabel?, bareLabel?, h]

theorem bareLabel?_eq_none_of_append {previous : Option Char}
    {first second : List Char}
    (h : bareLabel? previous (first ++ second) = none) :
    bareLabel? previous first = none := by
  rw [Option.eq_none_iff_forall_ne_some] at h ⊢
  rintro ⟨body, after⟩ hsome
  obtain ⟨hprevious, hopens, rfl, hdepth, hneeds⟩ :=
    bareLabel?_eq_some_iff.mp hsome
  have hsame : opensLabel (body ++ ']' :: after ++ second) =
      opensLabel (body ++ ']' :: after) :=
    opensLabel_congr (by cases body <;> rfl)
  exact h (body, after ++ second) (bareLabel?_eq_some_iff.mpr
    ⟨hprevious, hsame.trans hopens, by simp, hdepth, hneeds⟩)

/-- Labels do not reach beyond their line. -/
theorem bareLabel?_line {previous : Option Char} {line : List Char}
    (h : bareLabel? previous line = none) (rest : List Char) :
    bareLabel? previous (line ++ '\n' :: rest) = none := by
  rw [Option.eq_none_iff_forall_ne_some] at h ⊢
  rintro ⟨body, after⟩ hsome
  obtain ⟨hprevious, hopens, hwhole, hdepth, hneeds⟩ :=
    bareLabel?_eq_some_iff.mp hsome
  have hbreak := not_mem_of_depthAfter? hdepth
  obtain ⟨more, hline⟩ : ∃ more, line = body ++ ']' :: more := by
    have hsplit : line ++ '\n' :: rest = (body ++ [']']) ++ after := by
      simpa using hwhole
    rcases List.append_eq_append_iff.mp hsplit with
      ⟨inner, hbody, hrest⟩ | ⟨inner, hline, -⟩
    · cases inner with
      | nil => exact ⟨[], by simpa using hbody.symm⟩
      | cons c inner =>
          obtain ⟨rfl, -⟩ := List.cons.inj hrest
          have hmem : '\n' ∈ body ++ [']'] := by
            rw [hbody]
            simp
          exact absurd hmem (by simpa using hbreak)
    · exact ⟨inner, by simpa using hline⟩
  have hsame : opensLabel line = opensLabel (line ++ '\n' :: rest) := by
    apply opensLabel_congr
    rw [hline]
    cases body <;> rfl
  exact h (body, more) (bareLabel?_eq_some_iff.mpr
    ⟨hprevious, hsame.trans hopens, hline, hdepth, hneeds⟩)

theorem IsQuiet.of_append {quote : Quote} {previous : Option Char}
    {first second : List Char} (h : IsQuiet quote previous (first ++ second)) :
    IsQuiet quote previous first := by
  induction first generalizing quote previous with
  | nil => trivial
  | cons c first ih =>
      exact ⟨fun hquote hc => bareLabel?_eq_none_of_append (h.1 hquote hc),
        ih h.2⟩

theorem IsQuiet.append_right {quote : Quote} {previous : Option Char}
    {first second : List Char} (h : IsQuiet quote previous (first ++ second)) :
    IsQuiet (quote.after first) (first.getLast?.or previous) second := by
  induction first generalizing quote previous with
  | nil => exact h
  | cons c first ih =>
      have hrest := ih h.2
      rw [Quote.after_cons, List.getLast?_cons]
      cases hlast : first.getLast? <;> simpa [hlast] using hrest

theorem isQuiet_line {quote : Quote} {previous : Option Char}
    {line : List Char} (hclosed : quote.after line = .closed)
    (rest : List Char) :
    IsQuiet quote previous (line ++ '\n' :: rest) ↔
      IsQuiet quote previous line ∧ IsQuiet .closed none rest := by
  constructor
  · intro h
    refine ⟨h.of_append, ?_⟩
    have hrest := h.append_right.2
    rw [hclosed] at hrest
    exact (isQuiet_congr (by decide)).mp hrest
  · rintro ⟨hline, hrest⟩
    induction line generalizing quote previous with
    | nil =>
        rw [Quote.after_nil] at hclosed
        subst hclosed
        exact ⟨by simp, (isQuiet_congr (by decide)).mp hrest⟩
    | cons c line ih =>
        exact ⟨fun hquote hc => bareLabel?_line (hline.1 hquote hc) rest,
          ih hclosed hline.2⟩

/-- Where no line leaves a quote open, every line is judged on its own. -/
theorem isQuiet_intercalate_iff {lines : List (List Char)}
    (hclosed : ∀ line ∈ lines, Quote.closed.after line = .closed) :
    IsQuiet .closed none (['\n'].intercalate lines) ↔
      ∀ line ∈ lines, IsQuiet .closed none line := by
  induction lines with
  | nil => simp [IsQuiet]
  | cons line below ih =>
      rw [List.forall_mem_cons] at hclosed
      cases below with
      | nil => simp
      | cons next below =>
          rw [List.intercalate_cons_cons, List.append_assoc,
            List.singleton_append, isQuiet_line hclosed.1, ih hclosed.2]
          exact List.forall_mem_cons.symm

/-! ### The rule and the lines -/

/-- The lines are the same, or at least up to an opening bracket. -/
inductive AgreeToBracket : List Char → List Char → Prop where
  | same (line : List Char) : AgreeToBracket line line
  | bracket (start rest more : List Char) :
      AgreeToBracket (start ++ '[' :: rest) (start ++ '[' :: more)

theorem AgreeToBracket.append_left {line other : List Char}
    (h : AgreeToBracket line other) (before : List Char) :
    AgreeToBracket (before ++ line) (before ++ other) := by
  cases h with
  | same => exact .same _
  | bracket start rest more =>
      rw [← List.append_assoc, ← List.append_assoc]
      exact .bracket _ rest more

theorem Quoting.lines {quote : Quote} {previous : Option Char}
    {text out : List Char} (h : Quoting quote previous text out) :
    List.Forall₂ AgreeToBracket (lines text) (lines out) := by
  induction h with
  | nil => exact .cons (.same []) .nil
  | @keep _ _ c rest out _ _ ih =>
      by_cases hc : c = '\n'
      · subst hc
        have hbreak : ∀ text, Text.lines ('\n' :: text) = [] :: Text.lines text := by
          intro text
          simp [Text.lines, List.splitOn_cons_eq_if_modifyHead]
        rw [hbreak, hbreak]
        exact .cons (.same []) ih
      · have hline : '\n' ∉ [c] := by simpa using Ne.symm hc
        obtain ⟨first, below, hrest, hwhole⟩ :=
          Keyword.lines_append_of_not_mem hline rest
        obtain ⟨first', below', hout, hwhole'⟩ :=
          Keyword.lines_append_of_not_mem hline out
        rw [hrest, hout] at ih
        cases ih with
        | cons hfirst hbelow =>
            rw [List.singleton_append] at hwhole hwhole'
            rw [hwhole, hwhole']
            exact .cons (hfirst.append_left [c]) hbelow
  | @label _ body after out h _ ih =>
      have hbody := (bareLabel?_eq_some_iff.mp h).2.2.2.1
      -- A label ends in its line, with and without quotes.
      have hplain := not_mem_of_depthAfter? (depthAfter?_brackets hbody 0)
      have hquoted := not_mem_of_depthAfter? (depthAfter?_quotedLabel hbody 0)
      obtain ⟨first, below, hafter, hwhole⟩ :=
        Keyword.lines_append_of_not_mem hplain after
      obtain ⟨first', below', hout, hwhole'⟩ :=
        Keyword.lines_append_of_not_mem hquoted out
      have htext : '[' :: (body ++ ']' :: after) =
          ('[' :: body ++ [']']) ++ after := by simp
      rw [hafter, hout] at ih
      cases ih with
      | cons _ hbelow =>
          rw [htext, hwhole, hwhole']
          exact .cons (.bracket [] _ _) hbelow

theorem quoteLabelsFrom_congr {quote : Quote} {previous other : Option Char}
    (h : previous.any isIdChar = other.any isIdChar) (text : List Char) :
    quoteLabelsFrom quote previous text = quoteLabelsFrom quote other text := by
  cases text with
  | nil => rw [quoteLabelsFrom, quoteLabelsFrom]
  | cons c rest =>
      have hlabel : bareLabel? other rest = bareLabel? previous rest := by
        rw [bareLabel?, bareLabel?, h]
      by_cases hopen : quote = .closed ∧ c = '['
      · obtain ⟨rfl, rfl⟩ := hopen
        cases hbare : bareLabel? previous rest with
        | none =>
            rw [quoteLabelsFrom_of_none fun _ _ => hbare,
              quoteLabelsFrom_of_none fun _ _ => hlabel.trans hbare]
        | some parts =>
            rw [quoteLabelsFrom_of_some hbare,
              quoteLabelsFrom_of_some (hlabel.trans hbare)]
      · rw [quoteLabelsFrom_of_none fun hquote hc => absurd ⟨hquote, hc⟩ hopen,
          quoteLabelsFrom_of_none fun hquote hc => absurd ⟨hquote, hc⟩ hopen]

theorem after_quotedLabel (body : List Char) :
    Quote.closed.after (quotedLabel body) = .closed := by
  simp [quotedLabel, Quote.step, after_escape]

/-- A line that closes its quotes is rewritten on its own. -/
theorem Quoting.line {quote : Quote} {previous : Option Char}
    {line out : List Char} (h : Quoting quote previous line out)
    (hclosed : quote.after out = .closed) (rest : List Char) :
    quoteLabelsFrom quote previous (line ++ '\n' :: rest) =
      out ++ '\n' :: quoteLabels rest := by
  induction h with
  | nil =>
      rw [Quote.after_nil] at hclosed
      subst hclosed
      have hbreak : (some '\n').any isIdChar = Option.any isIdChar none := by
        decide
      rw [List.nil_append, quoteLabelsFrom_of_none (by simp),
        quoteLabelsFrom_congr hbreak]
      rfl
  | keep hnone _ ih =>
      rw [List.cons_append, List.cons_append, ← ih hclosed,
        quoteLabelsFrom_of_none]
      exact fun hquote hc => bareLabel?_line (hnone hquote hc) rest
  | @label previous body after out hlabel _ ih =>
      rw [Quote.after_append, after_quotedLabel] at hclosed
      obtain ⟨hprevious, hopens, -, hdepth, hneeds⟩ :=
        bareLabel?_eq_some_iff.mp hlabel
      have hwhole : bareLabel? previous
          (body ++ ']' :: (after ++ '\n' :: rest)) =
            some (body, after ++ '\n' :: rest) := by
        rw [bareLabel?_eq_some_iff]
        refine ⟨hprevious, ?_, rfl, hdepth, hneeds⟩
        rw [← hopens]
        exact opensLabel_congr (by cases body <;> rfl)
      rw [List.cons_append, List.append_assoc, List.cons_append,
        quoteLabelsFrom_of_some hwhole, ih hclosed, List.append_assoc]

theorem quoteLabels_intercalate {lines : List (List Char)}
    (h : ∀ line ∈ lines, Quote.closed.after (quoteLabels line) = .closed) :
    quoteLabels (['\n'].intercalate lines) =
      ['\n'].intercalate (lines.map quoteLabels) := by
  induction lines with
  | nil => simp [quoteLabels, quoteLabelsFrom]
  | cons line below ih =>
      rw [List.forall_mem_cons] at h
      cases below with
      | nil => simp
      | cons next below =>
          rw [List.map_cons, List.map_cons, List.intercalate_cons_cons,
            List.intercalate_cons_cons, List.append_assoc, List.append_assoc,
            List.singleton_append, List.singleton_append, quoteLabels,
            (quoting .closed none line).line h.1, ih h.2]
          rfl

theorem Quoting.not_mem {quote : Quote} {previous : Option Char}
    {text out : List Char} (h : Quoting quote previous text out)
    (htext : '\n' ∉ text) : '\n' ∉ out := by
  induction h with
  | nil => exact htext
  | keep _ _ ih =>
      rw [List.mem_cons, not_or] at htext ⊢
      exact ⟨htext.1, ih htext.2⟩
  | label hlabel _ ih =>
      have hbody := (bareLabel?_eq_some_iff.mp hlabel).2.2.2.1
      have hquoted := not_mem_of_depthAfter? (depthAfter?_quotedLabel hbody 0)
      rw [List.mem_append, not_or]
      exact ⟨hquoted, ih fun hmem => htext (by simp [hmem])⟩

/-- Where every line closes its quotes, every line is rewritten on its own. -/
theorem lines_quoteLabels {text : List Char}
    (h : ∀ line ∈ lines text, Quote.closed.after (quoteLabels line) = .closed) :
    lines (quoteLabels text) = (lines text).map quoteLabels := by
  have hwhole : ['\n'].intercalate (lines text) = text :=
    List.intercalate_splitOn '\n'
  conv_lhs => rw [← hwhole, quoteLabels_intercalate h]
  rw [Text.lines, List.splitOn_intercalate '\n']
  · intro line hline
    obtain ⟨other, hother, rfl⟩ := List.mem_map.mp hline
    exact (quoting .closed none other).not_mem
      (Keyword.not_mem_of_mem_lines hother)
  · simp [Text.lines, List.splitOn_ne_nil]

/-! ### Quoting labels twice -/

/-- Outside of strings an id is followed by a label in brackets that calls for
quotes.  The brackets match within the line, and the label does not open like
one of another form. -/
def HasBareLabel (text : List Char) : Prop :=
  ∃ before body after, text = before ++ '[' :: (body ++ ']' :: after) ∧
    Quote.closed.after before = .closed ∧
      before.getLast?.any isIdChar = true ∧
      opensLabel (body ++ ']' :: after) = true ∧
      depthAfter? 0 body = some 0 ∧ needsQuotes body = true

/-- Quiet text has nothing to quote at any bracket outside of strings. -/
theorem isQuiet_iff {quote : Quote} {previous : Option Char}
    {text : List Char} :
    IsQuiet quote previous text ↔
      ∀ before rest, text = before ++ '[' :: rest →
        quote.after before = .closed →
          bareLabel? (before.getLast?.or previous) rest = none := by
  constructor
  · rintro h before rest rfl hclosed
    exact h.append_right.1 hclosed rfl
  · intro h
    induction text generalizing quote previous with
    | nil => trivial
    | cons c text ih =>
        refine ⟨?_, ih ?_⟩
        · rintro hquote rfl
          exact h [] text rfl hquote
        · rintro before rest rfl hclosed
          have hlast : (c :: before).getLast?.or previous =
              before.getLast?.or (some c) := by
            rw [List.getLast?_cons]
            cases before.getLast? <;> rfl
          rw [← hlast]
          exact h (c :: before) rest rfl hclosed

theorem isQuiet_iff_not_hasBareLabel {text : List Char} :
    IsQuiet .closed none text ↔ ¬ HasBareLabel text := by
  rw [isQuiet_iff]
  constructor
  · rintro h ⟨before, body, after, htext, hclosed, hlabel⟩
    have hnone := h before (body ++ ']' :: after) htext hclosed
    rw [Option.or_none] at hnone
    have hsome : bareLabel? before.getLast? (body ++ ']' :: after) =
        some (body, after) :=
      bareLabel?_eq_some_iff.mpr ⟨hlabel.1, hlabel.2.1, rfl, hlabel.2.2⟩
    exact absurd (hnone.symm.trans hsome) (by simp)
  · rintro h before rest rfl hclosed
    rw [Option.or_none, Option.eq_none_iff_forall_ne_some]
    rintro ⟨body, after⟩ hsome
    obtain ⟨hprevious, hopens, rfl, hdepth, hneeds⟩ :=
      bareLabel?_eq_some_iff.mp hsome
    exact h ⟨before, body, after, rfl, hclosed, hprevious, hopens, hdepth,
      hneeds⟩

/-- The rule for labels leaves its own result alone.  It leaves just those texts
alone that have no label to quote. -/
theorem quoteLabels_quoteLabels (text : List Char) :
    quoteLabels (quoteLabels text) = quoteLabels text ∧
      (quoteLabels text = text ↔ ¬ HasBareLabel text) := by
  refine ⟨quoteLabelsFrom_quoteLabelsFrom .closed none text, ?_⟩
  rw [← isQuiet_iff_not_hasBareLabel]
  exact quoteLabelsFrom_eq_self_iff

end Flowchart.Sanitize
