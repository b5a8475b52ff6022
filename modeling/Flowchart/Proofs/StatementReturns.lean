import Flowchart.Proofs.LabelReturns
import Flowchart.Proofs.Reading

/-!
# Statements over several lines

Line breaks are filler between the parts of a statement, so that the readers of
connectors, links, nodes and group headers do not tell carriage returns apart.
What a statement does is the same in both forms of its text.
-/

namespace Flowchart.Grammar

open Text

variable {text other : List Char}

/-! ### Connectors -/

theorem respects_run? {mark : Char} (hmark : isLineBreak mark = false)
    (least : ℕ) : Respects Eq (run? mark least) := by
  intro text other h
  have hne : mark ≠ '\r' ∧ mark ≠ '\n' := by simpa [isLineBreak] using hmark
  have hreturn : ('\r' == mark) = false := by simpa using hne.1.symm
  have hfeed : ('\n' == mark) = false := by simpa using hne.2.symm
  have hdrop (text : List Char) :
      text.drop (text.takeWhile (· == mark)).length =
        text.dropWhile (· == mark) := by
    have hparts : (text.takeWhile (· == mark) ++ text.dropWhile (· == mark)).drop
        (text.takeWhile (· == mark)).length = text.dropWhile (· == mark) :=
      List.drop_left
    rwa [List.takeWhile_append_dropWhile] at hparts
  have hcount : text.takeWhile (· == mark) = other.takeWhile (· == mark) :=
    h.takeWhile_eq hreturn hfeed
  have hrest : WithReturns (text.dropWhile (· == mark))
      (other.dropWhile (· == mark)) := h.dropWhile (hreturn.trans hfeed.symm)
  rw [run?, run?, hdrop, hdrop, hcount]
  split
  · exact .some ⟨rfl, hrest⟩
  · exact .none

theorem endsId_eq (h : WithReturns text other) : endsId text = endsId other := by
  cases h with
  | nil => rfl
  | cons => rfl
  | newline =>
      have hreturn : isIdChar '\r' = false := by decide
      have hfeed : isIdChar '\n' = false := by decide
      rw [endsId, endsId, hreturn, hfeed]

theorem solidHead?_cons (c : Char) (text : List Char) :
    solidHead? (c :: text) =
      if c = '>' then some (.arrow, text)
      else if c = 'o' ∧ endsId text then some (.circle, text)
      else if c = 'x' ∧ endsId text then some (.cross, text)
      else none := by
  unfold solidHead?
  split <;> simp_all

theorem respects_solidHead? : Respects Eq solidHead? := by
  intro text other h
  cases h with
  | nil => exact .none
  | newline h => exact .none
  | @cons c text other hc h =>
      rw [solidHead?_cons, solidHead?_cons, endsId_eq h]
      split
      · exact .some ⟨rfl, h⟩
      split
      · exact .some ⟨rfl, h⟩
      split
      · exact .some ⟨rfl, h⟩
      · exact .none

theorem respects_solid? : Respects Eq solid? := by
  intro text other h
  refine rel_bind (respects_run? (by decide) 2 h) ?_
  rintro ⟨count, rest⟩ ⟨-, rest'⟩ ⟨rfl, hrest⟩
  rcases rel_cases (respects_solidHead? hrest) with
    ⟨hnone, hnone'⟩ | ⟨head, head', hsome, hsome', hparts⟩
  · simp only [hnone, hnone']
    split
    · exact .some ⟨rfl, hrest⟩
    · exact .none
  · simp only [hsome, hsome']
    exact .some hparts

theorem dottedHead_cons (c : Char) (text : List Char) :
    dottedHead (c :: text) =
      if c = '>' then (.dottedArrow, text) else (.dottedLine, c :: text) := by
  unfold dottedHead
  split <;> simp_all

theorem dottedHead_withReturns (h : WithReturns text other) :
    (dottedHead text).1 = (dottedHead other).1 ∧
      WithReturns (dottedHead text).2 (dottedHead other).2 := by
  cases h with
  | nil => exact ⟨rfl, .nil⟩
  | newline h => exact ⟨rfl, .newline h⟩
  | cons hc h =>
      rw [dottedHead_cons, dottedHead_cons]
      split
      · exact ⟨rfl, h⟩
      · exact ⟨rfl, .cons hc h⟩

theorem afterDots?_withReturns (h : WithReturns text other) :
    Option.Rel WithReturns (afterDots? text) (afterDots? other) := by
  refine rel_bind (h.after? (by decide)) fun _ _ hrest => ?_
  refine rel_bind (respects_run? (by decide) 1 hrest) fun _ _ hparts => ?_
  exact hparts.2.after? (by decide)

theorem respects_dotted? : Respects Eq dotted? :=
  fun _ _ h => rel_map (afterDots?_withReturns h) fun _ _ =>
    dottedHead_withReturns

theorem respects_thick? : Respects Eq thick? := by
  intro text other h
  refine rel_bind (respects_run? (by decide) 2 h) ?_
  rintro ⟨count, rest⟩ ⟨-, rest'⟩ ⟨rfl, hrest⟩
  have hhead : Option.Rel WithReturns (after? ['>'] rest)
      (after? ['>'] rest') := hrest.after? (by decide)
  rcases rel_cases hhead with
    ⟨hnone, hnone'⟩ | ⟨after, after', hsome, hsome', hafter⟩
  · simp only [hnone, hnone']
    split
    · exact .some ⟨rfl, hrest⟩
    · exact .none
  · simp only [hsome, hsome']
    exact .some ⟨rfl, hafter⟩

theorem respects_invisible? : Respects Eq invisible? :=
  fun _ _ h => rel_map (respects_run? (by decide) 3 h) fun _ _ hparts =>
    ⟨rfl, hparts.2⟩

theorem afterBody?_withReturns (h : WithReturns text other) :
    Option.Rel WithReturns (afterBody? text) (afterBody? other) := by
  have hrun {mark : Char} (hmark : isLineBreak mark = false) :
      Option.Rel WithReturns
        (((run? mark 2 text).map Prod.snd).bind (after? ['>']))
        (((run? mark 2 other).map Prod.snd).bind (after? ['>'])) :=
    rel_bind (rel_map (respects_run? hmark 2 h) fun _ _ hparts => hparts.2)
      fun _ _ hrest => hrest.after? (by decide)
  exact rel_orElse (hrun (by decide)) (rel_orElse (hrun (by decide))
    (rel_bind (afterDots?_withReturns h) fun _ _ hrest =>
      hrest.after? (by decide)))

theorem respects_bidirectional? : Respects Eq bidirectional? := by
  intro text other h
  refine rel_map (rel_bind (h.after? (by decide)) fun _ _ hrest =>
    afterBody?_withReturns hrest) fun _ _ hrest => ?_
  exact ⟨rfl, hrest⟩

theorem respects_plainConnector? : Respects Eq plainConnector? :=
  respects_bidirectional?.orElse (respects_dotted?.orElse
    (respects_solid?.orElse (respects_thick?.orElse respects_invisible?)))

section Inside

variable {pattern : List Char} (hpattern : pattern.all (!isLineBreak ·) = true)
  (hne : pattern ≠ [])

include hpattern hne

theorem respects_before? : Respects WithReturns (before? pattern) := by
  intro text other h
  refine rel_bind (respects_cut? hpattern hne h) ?_
  rintro ⟨before, rest⟩ ⟨before', rest'⟩ ⟨hbefore, hrest⟩
  simp only [hbefore.isEmpty_eq]
  have hreturn : '\r' ∉ pattern := by
    intro hmem
    exact absurd (List.all_eq_true.mp hpattern '\r' hmem) (by decide)
  split
  · exact .none
  · exact .some ⟨hbefore, (WithReturns.refl hreturn).append hrest⟩

end Inside

/-- The connectors are the same; what stands inside of them and behind them
agrees. -/
theorem textConnector?_withReturns (h : WithReturns text other) :
    Option.Rel (fun first second => first.1 = second.1 ∧
        WithReturns first.2.1 second.2.1 ∧ WithReturns first.2.2 second.2.2)
      (textConnector? text) (textConnector? other) := by
  refine rel_orElse ?_ (rel_orElse ?_ ?_)
  · refine rel_bind (h.after? (by decide)) fun _ _ hrest => ?_
    refine rel_bind (respects_before? (by decide) (by simp) hrest)
      fun _ _ hinner => ?_
    refine rel_bind (respects_solid? hinner.2) fun _ _ hsolid => ?_
    exact .some ⟨hsolid.1, hinner.1, hsolid.2⟩
  · refine rel_bind (h.after? (by decide)) fun _ _ hrest => ?_
    refine rel_bind (respects_before? (by decide) (by simp) hrest)
      fun _ _ hinner => ?_
    refine rel_bind (hinner.2.after? (by decide)) fun _ _ hdots => ?_
    have hhead := dottedHead_withReturns hdots
    exact .some ⟨hhead.1, hinner.1, hhead.2⟩
  · refine rel_bind (h.after? (by decide)) fun _ _ hrest => ?_
    refine rel_bind (respects_before? (by decide) (by simp) hrest)
      fun _ _ hinner => ?_
    refine rel_bind (respects_thick? hinner.2) fun _ _ hthick => ?_
    exact .some ⟨hthick.1, hinner.1, hthick.2⟩

theorem respects_barText? : Respects WithReturns barText? :=
  fun _ _ h => rel_bind (h.after? (by decide)) fun _ _ hrest =>
    respects_cut? (by decide) (by simp) hrest

theorem connector?_withReturns (h : WithReturns text other) :
    Option.Rel (fun first second => first.1 = second.1 ∧
        Option.Rel WithReturns first.2.1 second.2.1 ∧
        WithReturns first.2.2 second.2.2)
      (connector? text) (connector? other) := by
  rw [connector?, connector?]
  rcases rel_cases (respects_plainConnector? h) with
    ⟨hnone, hnone'⟩ | ⟨plain, plain', hsome, hsome', hparts⟩
  · rw [hnone, hnone']
    exact rel_map (textConnector?_withReturns h) fun _ _ hparts =>
      ⟨hparts.1, .some hparts.2.1, hparts.2.2⟩
  · rw [hsome, hsome']
    exact .some ⟨hparts.1, .none, hparts.2⟩

theorem respects_link? : Respects Eq link? := by
  intro text other h
  refine rel_map (connector?_withReturns h) ?_
  rintro ⟨connector, inner, rest⟩ ⟨-, inner', rest'⟩ ⟨rfl, hinner, hrest⟩
  have hbar : Agree WithReturns (barText? (rest.dropWhile isFiller))
      (barText? (rest'.dropWhile isFiller)) :=
    respects_barText? (hrest.dropWhile (by decide))
  have hlabel : inner.bind edgeLabel? = inner'.bind edgeLabel? := by
    cases hinner with
    | none => rfl
    | some hinside => exact edgeLabel?_eq hinside
  rcases rel_cases hbar with
    ⟨hnone, hnone'⟩ | ⟨bar, bar', hsome, hsome', hparts⟩
  · simp only [hnone, hnone']
    exact ⟨congrArg (Link.mk connector) hlabel, hrest⟩
  · simp only [hsome, hsome']
    exact ⟨congrArg (Link.mk connector) (edgeLabel?_eq hparts.1), hparts.2⟩

/-! ### Nodes -/

theorem idTail_withReturns (h : WithReturns text other) :
    (idTail text).1 = (idTail other).1 ∧
      WithReturns (idTail text).2 (idTail other).2 := by
  induction h with
  | nil => exact ⟨rfl, .nil⟩
  | @cons c text other hc h ih =>
      unfold idTail
      rw [endsId_eq h]
      split
      · exact ⟨congrArg (c :: ·) ih.1, ih.2⟩
      · exact ⟨rfl, .cons hc h⟩
  | newline h =>
      have hstop {c : Char} (hc : isLineBreak c = true) (text : List Char) :
          idTail (c :: text) = ([], c :: text) := by
        rcases eq_of_isLineBreak hc with rfl | rfl <;> rfl
      rw [hstop rfl, hstop rfl]
      exact ⟨rfl, .newline h⟩

theorem respects_id? : Respects Eq id? := by
  intro text other h
  rw [id?, id?, endsId_eq h]
  split
  · exact .none
  · exact .some (idTail_withReturns h)

theorem quotedInside_withReturns (h : WithReturns text other) :
    WithReturns (quotedInside text).1 (quotedInside other).1 ∧
      WithReturns (quotedInside text).2 (quotedInside other).2 := by
  induction hlength : text.length using Nat.strong_induction_on
    generalizing text other with
  | h length ih =>
      subst hlength
      cases h with
      | nil => exact ⟨.nil, .nil⟩
      | newline h =>
          obtain ⟨hinside, hafter⟩ := ih _ (by simp) h rfl
          rw [quotedInside_cons (by decide) (by decide),
            quotedInside_cons (by decide) (by decide),
            quotedInside_cons (by decide) (by decide)]
          exact ⟨.newline hinside, hafter⟩
      | @cons c text other hc h =>
          by_cases hquote : c = '"'
          · subst hquote
            exact ⟨.nil, .cons hc h⟩
          by_cases hslash : c = '\\'
          · subst hslash
            -- The backslash goes with what follows it, be that a line break.
            cases h with
            | nil => exact ⟨.nil, .refl (by decide)⟩
            | newline h =>
                obtain ⟨hinside, hafter⟩ :=
                  ih _ (Nat.lt_succ_of_lt (Nat.lt_succ_self _)) h rfl
                rw [quotedInside, quotedInside,
                  quotedInside_cons (by decide) (by decide)]
                exact ⟨.cons hc (.newline hinside), hafter⟩
            | cons hd h =>
                obtain ⟨hinside, hafter⟩ :=
                  ih _ (Nat.lt_succ_of_lt (Nat.lt_succ_self _)) h rfl
                rw [quotedInside, quotedInside]
                exact ⟨.cons hc (.cons hd hinside), hafter⟩
          · obtain ⟨hinside, hafter⟩ := ih _ (by simp) h rfl
            rw [quotedInside_cons hslash hquote, quotedInside_cons hslash hquote]
            exact ⟨.cons hc hinside, hafter⟩

theorem respects_quotedString? : Respects WithReturns quotedString? := by
  intro text other h
  refine rel_bind (h.after? (by decide)) fun _ _ hrest => ?_
  have hinside := quotedInside_withReturns hrest
  exact rel_map (hinside.2.after? (by decide)) fun _ _ hafter =>
    ⟨hinside.1, hafter⟩

section Closing

variable {closing : List Char} (hclosing : closing.all (!isLineBreak ·) = true)
  (hne : closing ≠ [])

include hclosing

theorem respects_quotedLabel? : Respects WithReturns (quotedLabel? closing) := by
  intro text other h
  refine rel_bind (respects_quotedString? (h.dropWhile (by decide)))
    fun _ _ hinside => ?_
  exact rel_map ((hinside.2.dropWhile (by decide)).after? hclosing)
    fun _ _ hafter => ⟨hinside.1, hafter⟩

include hne

theorem balanced?_isLineBreak {c : Char} (hc : isLineBreak c = true)
    (depth : ℕ) (text : List Char) :
    balanced? closing depth (c :: text) =
      (balanced? closing depth text).map fun (body, after) =>
        (c :: body, after) := by
  have hafter : (if depth = 0 then after? closing (c :: text) else none) =
      none := by
    rw [after?_isLineBreak hclosing hc hne, ite_self]
  rw [balanced?, hafter]
  rcases eq_of_isLineBreak hc with rfl | rfl <;> rfl

theorem respects_balanced? (depth : ℕ) :
    Respects WithReturns (balanced? closing depth) := by
  intro text other h
  induction h generalizing depth with
  | nil => exact .none
  | @cons c text other hc h ih =>
      have hafter : Option.Rel WithReturns
          (if depth = 0 then after? closing (c :: text) else none)
          (if depth = 0 then after? closing (c :: other) else none) := by
        split
        · exact (h.cons hc).after? hclosing
        · exact .none
      rw [balanced?, balanced?]
      rcases rel_cases hafter with
        ⟨hnone, hnone'⟩ | ⟨rest, rest', hsome, hsome', hrest⟩
      · rw [hnone, hnone']
        exact rel_map (ih _) fun _ _ hparts => ⟨.cons hc hparts.1, hparts.2⟩
      · rw [hsome, hsome']
        exact .some ⟨.nil, hrest⟩
  | newline h ih =>
      rw [balanced?_isLineBreak hclosing hne rfl,
        balanced?_isLineBreak hclosing hne rfl,
        balanced?_isLineBreak hclosing hne rfl, Option.map_map]
      exact rel_map (ih depth) fun _ _ hparts => ⟨.newline hparts.1, hparts.2⟩

theorem respects_label? : Respects Eq (label? closing) := by
  intro text other h
  rw [label?, label?]
  rcases rel_cases (respects_quotedLabel? hclosing h) with
    ⟨hnone, hnone'⟩ | ⟨quoted, quoted', hsome, hsome', hparts⟩
  · rw [hnone, hnone']
    exact rel_map (respects_balanced? hclosing hne 0 h) fun _ _ hparts =>
      ⟨Label.normalize_eq hparts.1 false, hparts.2⟩
  · rw [hsome, hsome']
    exact .some ⟨Label.normalize_eq hparts.1 true, hparts.2⟩

end Closing

theorem respects_definition? : Respects Eq definition? := by
  intro text other h
  have hall : ∀ delimiter ∈ Delimiter.all,
      delimiter.opening.all (!isLineBreak ·) = true ∧
      delimiter.closing.all (!isLineBreak ·) = true ∧
      delimiter.closing ≠ [] := by
    decide
  apply rel_findSome?
  intro delimiter hmem
  obtain ⟨hopening, hclosing, hne⟩ := hall delimiter hmem
  refine rel_map (rel_bind (h.after? hopening) fun _ _ hrest =>
    respects_label? hclosing hne hrest) ?_
  rintro ⟨label, rest⟩ ⟨-, rest'⟩ ⟨rfl, hrest⟩
  exact ⟨rfl, hrest⟩

theorem skipClass_withReturns (h : WithReturns text other) :
    WithReturns (skipClass text) (skipClass other) := by
  have hafter : Option.Rel WithReturns (after? [':', ':', ':'] text)
      (after? [':', ':', ':'] other) := h.after? (by decide)
  rw [skipClass, skipClass]
  rcases rel_cases hafter with
    ⟨hnone, hnone'⟩ | ⟨rest, rest', hsome, hsome', hrest⟩
  · rwa [hnone, hnone']
  · rw [hsome, hsome']
    cases hrest with
    | nil => exact h
    | newline => exact h
    | cons hc hrest =>
        dsimp only
        split
        · exact hrest.dropWhile (by decide)
        · exact h

theorem respects_mention? : Respects Eq (mention? 0) := by
  intro text other h
  refine rel_map (respects_id? h) ?_
  rintro ⟨id, rest⟩ ⟨-, rest'⟩ ⟨rfl, hrest⟩
  rcases rel_cases (respects_definition? hrest) with ⟨hnone, hnone'⟩ |
    ⟨⟨definition, after⟩, ⟨-, after'⟩, hsome, hsome', rfl, hafter⟩
  · simp only [hnone, hnone', Nat.zero_sub, true_and]
    exact skipClass_withReturns hrest
  · simp only [hsome, hsome', Nat.zero_sub, true_and]
    exact skipClass_withReturns hafter

theorem respects_nextMention? : Respects Eq (nextMention? 0) :=
  fun _ _ h => rel_bind ((h.dropWhile (by decide)).after? (by decide))
    fun _ _ hrest => respects_mention? (hrest.dropWhile (by decide))

theorem moreMentions_withReturns (h : WithReturns text other) :
    (moreMentions 0 text).1 = (moreMentions 0 other).1 ∧
      WithReturns (moreMentions 0 text).2 (moreMentions 0 other).2 := by
  induction text using moreMentions.induct 0 generalizing other with
  | case1 text hnext =>
      have hnone := respects_nextMention? h
      rw [hnext] at hnone
      rw [moreMentions_of_none hnext, moreMentions_of_none (eq_none_of_rel hnone)]
      exact ⟨rfl, h⟩
  | case2 text mention rest hnext hlt others after hmore ih =>
      have hsome := respects_nextMention? h
      rw [hnext] at hsome
      obtain ⟨⟨-, rest'⟩, hother, rfl, hrest⟩ := exists_of_rel_some hsome
      rw [moreMentions_of_some hnext, moreMentions_of_some hother]
      obtain ⟨hothers, hafter⟩ := ih hrest
      exact ⟨congrArg (mention :: ·) hothers, hafter⟩
  | case3 text mention rest hnext hlt =>
      exact absurd (length_nextMention?_lt hnext) hlt

theorem respects_mentions? : Respects Eq (mentions? 0) := by
  intro text other h
  refine rel_map (respects_mention? h) ?_
  rintro ⟨mention, rest⟩ ⟨-, rest'⟩ ⟨rfl, hrest⟩
  obtain ⟨hothers, hafter⟩ := moreMentions_withReturns hrest
  exact ⟨congrArg (mention :: ·) hothers, hafter⟩

/-! ### Chains -/

theorem respects_nextLink? : Respects Eq (nextLink? 0) := by
  intro text other h
  refine rel_bind (respects_link? (h.dropWhile (by decide))) ?_
  rintro ⟨link, rest⟩ ⟨-, rest'⟩ ⟨rfl, hrest⟩
  refine rel_map (respects_mentions? (hrest.dropWhile (by decide))) ?_
  rintro ⟨mentions, after⟩ ⟨-, after'⟩ ⟨rfl, hafter⟩
  exact ⟨rfl, hafter⟩

theorem moreLinks_withReturns (h : WithReturns text other) :
    (moreLinks 0 text).1 = (moreLinks 0 other).1 ∧
      WithReturns (moreLinks 0 text).2 (moreLinks 0 other).2 := by
  induction text using moreLinks.induct 0 generalizing other with
  | case1 text hnext =>
      have hnone := respects_nextLink? h
      rw [hnext] at hnone
      rw [moreLinks_of_none hnext, moreLinks_of_none (eq_none_of_rel hnone)]
      exact ⟨rfl, h⟩
  | case2 text link rest hnext hlt others after hmore ih =>
      have hsome := respects_nextLink? h
      rw [hnext] at hsome
      obtain ⟨⟨-, rest'⟩, hother, rfl, hrest⟩ := exists_of_rel_some hsome
      rw [moreLinks_of_some hnext, moreLinks_of_some hother]
      obtain ⟨hothers, hafter⟩ := ih hrest
      exact ⟨congrArg (link :: ·) hothers, hafter⟩
  | case3 text link rest hnext hlt =>
      exact absurd (length_nextLink?_lt hnext) hlt

theorem respects_chain? : Respects Eq (chain? 0) := by
  intro text other h
  refine rel_bind (respects_mentions? h) ?_
  rintro ⟨head, rest⟩ ⟨-, rest'⟩ ⟨rfl, hrest⟩
  obtain ⟨hlinks, hafter⟩ := moreLinks_withReturns hrest
  simp only [hlinks]
  split
  · exact .none
  · exact .some ⟨rfl, hafter⟩

/-! ### Groups and directions -/

theorem whole?_withReturns {α : Type} {Same : α → α → Prop}
    {first second : Option (α × List Char)} (h : Agree Same first second) :
    Option.Rel Same (whole? first) (whole? second) := by
  refine rel_bind h ?_
  rintro ⟨value, rest⟩ ⟨value', rest'⟩ ⟨hvalue, hrest⟩
  have hfiller : isRest rest = isRest rest' := hrest.all_eq (by decide)
  simp only [hfiller]
  split
  · exact .some hvalue
  · exact .none

theorem whole?_eq {α : Type} {first second : Option (α × List Char)}
    (h : Agree Eq first second) : whole? first = whole? second :=
  rel_eq_iff.mp (whole?_withReturns h)

theorem withoutAnnotation_withReturns
    (h : WithReturns (trim text) (trim other)) :
    WithReturns ( withoutAnnotation text) ( withoutAnnotation other) := by
  have hnote : Option.Rel (fun first second => WithReturns first.1 second.1)
      (Sanitize.annotation? (trim text)) (Sanitize.annotation? (trim other)) :=
    rel_bind (h.beforeFinal? (by decide)) fun _ _ hinside =>
      rel_map (respects_cutLast? (by decide) hinside) fun _ _ hparts =>
        hparts.1.trimEnd
  unfold withoutAnnotation
  rcases rel_cases hnote with
    ⟨hnone, hnone'⟩ | ⟨parts, parts', hsome, hsome', hbefore⟩
  · simpa only [hnone, hnone'] using h
  · simpa only [hsome, hsome'] using hbefore

theorem titleHeader?_eq (h : WithReturns text other) :
    titleHeader? text = titleHeader? other := by
  apply rel_eq_iff.mp
  refine rel_map (whole?_withReturns (respects_quotedString? h))
    fun _ _ hinside => ?_
  rw [Label.normalize_eq hinside]

theorem titledHeader?_eq (h : WithReturns text other) :
    titledHeader? text = titledHeader? other := by
  apply rel_eq_iff.mp
  refine rel_bind (respects_id? h) ?_
  rintro ⟨id, rest⟩ ⟨-, rest'⟩ ⟨rfl, hrest⟩
  refine rel_bind ((hrest.dropWhile (by decide)).after? (by decide))
    fun _ _ hafter => ?_
  rw [whole?_eq (respects_label? (by decide) (by simp) hafter)]
  exact rel_eq_iff.mpr rfl

theorem plainHeader?_eq (h : WithReturns text other) :
    plainHeader? text = plainHeader? other := by
  rw [plainHeader?, plainHeader?, whole?_eq (respects_id? h)]

theorem freeHeader_eq (h : WithReturns text other) :
    freeHeader text = freeHeader other := by
  rw [freeHeader, freeHeader, Label.normalize_eq h]

theorem groupHeader_eq (h : WithReturns (trim text) (trim other)) :
    groupHeader text = groupHeader other := by
  have hheader := withoutAnnotation_withReturns h
  rw [groupHeader, groupHeader, hheader.isEmpty_eq, titleHeader?_eq hheader,
    titledHeader?_eq hheader, plainHeader?_eq hheader, freeHeader_eq hheader]

theorem openGroup?_eq (h : WithReturns text other) :
    openGroup? text = openGroup? other := by
  have hafter : Option.Rel WithReturns (after? "subgraph".toList text)
      (after? "subgraph".toList other) := h.after? (by decide)
  rw [openGroup?, openGroup?]
  rcases rel_cases hafter with
    ⟨hnone, hnone'⟩ | ⟨rest, rest', hsome, hsome', hrest⟩
  · rw [hnone, hnone']
  · rw [hsome, hsome']
    cases hrest with
    | nil => rfl
    | cons hc hrest => simp only [groupHeader_eq hrest.trim]
    | @newline text other hrest =>
        have htrim : trim ('\n' :: other) = trim other :=
          trim_append_of_isWhiteSpace other isWhiteSpace_newline
        have hheader : groupHeader text = groupHeader ('\n' :: other) :=
          groupHeader_eq (htrim.symm ▸ hrest.trim)
        exact congrArg some hheader

theorem closeGroup?_eq (h : WithReturns text other) :
    closeGroup? text = closeGroup? other :=
  whole?_eq (rel_map (h.after? (by decide)) fun _ _ hrest => ⟨rfl, hrest⟩)

theorem afterBlanks?_withReturns (h : WithReturns text other) :
    Option.Rel WithReturns (afterBlanks? text) (afterBlanks? other) := by
  cases h with
  | nil => exact .none
  | newline h => exact .none
  | cons hc h =>
      rw [afterBlanks?, afterBlanks?]
      split
      · exact .some (h.dropWhile (by decide))
      · exact .none

/-- No direction is written with a line break. -/
theorem not_isLineBreak_of_ofKeyword? {keyword : List Char}
    {direction : Direction}
    (h : Direction.ofKeyword? keyword = some direction) :
    ∀ c ∈ keyword, isLineBreak c = false := by
  intro c hc
  have hletters : keyword.map Char.toUpper ∈
      [['T', 'D'], ['T', 'B'], ['B', 'T'], ['L', 'R'], ['R', 'L']] := by
    unfold Direction.ofKeyword? at h
    split at h <;> simp_all
  have hplain : ∀ word ∈ [['T', 'D'], ['T', 'B'], ['B', 'T'], ['L', 'R'],
      ['R', 'L']], word.all (!isLineBreak ·) = true := by decide
  have hupper : (!isLineBreak c.toUpper) = true :=
    List.all_eq_true.mp (hplain _ hletters) _ (List.mem_map_of_mem hc)
  rw [Bool.eq_false_iff]
  intro hbreak
  rcases eq_of_isLineBreak hbreak with rfl | rfl
  · exact absurd hupper (by decide)
  · exact absurd hupper (by decide)

theorem ofKeyword?_isLineBreak {first second : Char}
    (h : isLineBreak first = true ∨ isLineBreak second = true) :
    Direction.ofKeyword? [first, second] = none := by
  rw [Option.eq_none_iff_forall_ne_some]
  intro direction hdirection
  have hplain := not_isLineBreak_of_ofKeyword? hdirection
  simp only [List.forall_mem_cons] at hplain
  rcases h with h | h
  · exact absurd h (by simp [hplain.1])
  · exact absurd h (by simp [hplain.2.1])

theorem direction?_eq (h : WithReturns text other) :
    direction? text = direction? other := by
  apply rel_eq_iff.mp
  refine rel_bind (rel_bind (h.after? (by decide)) fun _ _ hrest =>
    afterBlanks?_withReturns hrest) fun rest rest' hrest => ?_
  apply rel_eq_iff.mpr
  have hfirst {first : Char} (hbreak : isLineBreak first = true)
      (second : Char) : Direction.ofKeyword? [first, second] = none :=
    ofKeyword?_isLineBreak (.inl hbreak)
  have hsecond (first : Char) {second : Char}
      (hbreak : isLineBreak second = true) :
      Direction.ofKeyword? [first, second] = none :=
    ofKeyword?_isLineBreak (.inr hbreak)
  cases hrest with
  | nil => rfl
  | newline hrest =>
      -- Both are read as a keyword that starts with a line break.
      have hfeed := hfirst (by decide : isLineBreak '\n' = true)
      have hreturn := hfirst (by decide : isLineBreak '\r' = true) '\n'
      cases hrest <;> simp only [hfeed, hreturn, ite_self]
  | @cons a _ _ ha hrest =>
      cases hrest with
      | nil => rfl
      | newline hrest =>
          have hfeed := hsecond a (by decide : isLineBreak '\n' = true)
          have hreturn := hsecond a (by decide : isLineBreak '\r' = true)
          simp only [hfeed, hreturn, ite_self]
      | @cons b rest rest' hb hrest =>
          have hfiller : isRest rest = isRest rest' := hrest.all_eq (by decide)
          simp only [hfiller]

/-- A statement does the same whether it is written with carriage returns or
without. -/
theorem effect?_eq (h : WithReturns text other) :
    effect? text = effect? other := by
  rw [effect?, effect?, openGroup?_eq h, closeGroup?_eq h, direction?_eq h,
    whole?_eq (respects_chain? h), whole?_eq (respects_mentions? h)]

end Flowchart.Grammar
