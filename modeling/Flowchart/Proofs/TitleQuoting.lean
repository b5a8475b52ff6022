import Flowchart.Proofs.Search
import Flowchart.Proofs.Trimming
import Flowchart.Source.Sanitize

/-!
# Quoting titles

Whether the rule for titles rewrites a line does not depend on the white space
around the line, and a title that has got its quotes is left alone.
-/

namespace Flowchart.Sanitize

open Text

/-- White space, the word that opens a group, and white space again. -/
def IsTitleStart (start : List Char) : Prop :=
  ∃ indent gap, start = indent ++ ("subgraph".toList ++ gap) ∧
    (∀ c ∈ indent, isWhiteSpace c = true) ∧ gap ≠ [] ∧
    ∀ c ∈ gap, isWhiteSpace c = true

/-- What stands before the title of a line that opens a group, and the title,
which is not empty. -/
def titleOf? (line : List Char) : Option (List Char × List Char) :=
  (groupTitle? line).filter fun (_, name) => !name.isEmpty

theorem titleOf?_eq_some_iff {line start name : List Char} :
    titleOf? line = some (start, name) ↔
      IsTitleStart start ∧ name ≠ [] ∧ IsTrimmed name ∧
        ∃ tail, line = start ++ (name ++ tail) ∧
          ∀ c ∈ tail, isWhiteSpace c = true := by
  rw [titleOf?, Option.filter_eq_some_iff]
  constructor
  · rintro ⟨hgroup, hname⟩
    rw [groupTitle?] at hgroup
    obtain ⟨rest, hword, hif⟩ := Option.bind_eq_some_iff.mp hgroup
    simp only at hif
    split at hif
    next => exact absurd hif (by simp)
    next hgap =>
      obtain ⟨rfl, rfl⟩ := Prod.mk.inj (Option.some.inj hif)
      obtain ⟨tail, htail, hwhite⟩ :=
        exists_eq_dropWhileEnd_append isWhiteSpace
          (rest.dropWhile isWhiteSpace)
      refine ⟨⟨_, _, List.append_assoc _ _ _, ?_, by simpa using hgap, ?_⟩,
        by simpa using hname, isTrimmed_trim rest, tail, ?_, hwhite⟩
      · exact fun c hc => List.mem_takeWhile_imp hc
      · exact fun c hc => List.mem_takeWhile_imp hc
      · rw [trimEnd, ← htail, List.append_assoc, List.append_assoc,
          List.takeWhile_append_dropWhile, ← after?_eq_some_iff.mp hword,
          List.takeWhile_append_dropWhile]
  · rintro ⟨⟨indent, gap, rfl, hindent, hgapNe, hgap⟩, hne, htrimmed, tail,
      rfl, htail⟩
    have hletter : ∀ rest, ("subgraph".toList ++ rest).takeWhile isWhiteSpace = [] ∧
        ("subgraph".toList ++ rest).dropWhile isWhiteSpace =
          "subgraph".toList ++ rest := by
      intro rest
      exact ⟨rfl, rfl⟩
    obtain ⟨c, letters, rfl⟩ := List.exists_cons_of_ne_nil hne
    have hc : isWhiteSpace c = false := htrimmed.head c rfl
    have hname : (c :: letters ++ tail).takeWhile isWhiteSpace = [] ∧
        (c :: letters ++ tail).dropWhile isWhiteSpace = c :: letters ++ tail := by
      simp [hc]
    have htrim : trimEnd (c :: letters ++ tail) = c :: letters :=
      (dropWhileEnd_append_of_all _ htail).trans (trimEnd_eq_self htrimmed.last)
    refine ⟨?_, by simp⟩
    rw [groupTitle?]
    simp only [List.append_assoc]
    rw [List.takeWhile_append_of_pos hindent,
      List.dropWhile_append_of_pos hindent, (hletter _).1, (hletter _).2,
      after?_append, Option.bind_some]
    rw [List.takeWhile_append_of_pos hgap, List.dropWhile_append_of_pos hgap,
      hname.1, hname.2, htrim]
    simp [hgapNe]

theorem titleOf?_append {line tail : List Char}
    (h : ∀ c ∈ tail, isWhiteSpace c = true) :
    titleOf? (line ++ tail) = titleOf? line := by
  apply Option.ext
  rintro ⟨start, name⟩
  rw [titleOf?_eq_some_iff, titleOf?_eq_some_iff]
  refine and_congr_right fun _ => and_congr_right fun hne =>
    and_congr_right fun htrimmed => ?_
  constructor
  · rintro ⟨more, heq, hmore⟩
    obtain ⟨init, last, hname⟩ :=
      (List.eq_nil_or_concat name).resolve_left hne
    rw [List.concat_eq_append] at hname
    subst hname
    have hlast : isWhiteSpace last = false := htrimmed.last last (by simp)
    have hparts : line ++ tail = (start ++ init) ++ [last] ++ more := by
      rw [heq]
      simp
    obtain ⟨inner, hline, rfl⟩ := exists_append_of_isWhiteSpace h hlast hparts
    refine ⟨inner, by rw [hline]; simp, ?_⟩
    exact fun c hc => hmore c (List.mem_append_left tail hc)
  · rintro ⟨more, rfl, hmore⟩
    refine ⟨more ++ tail, by simp, ?_⟩
    intro c hc
    rcases List.mem_append.mp hc with hc | hc
    · exact hmore c hc
    · exact h c hc

theorem IsTitleStart.append_left {start before : List Char}
    (h : IsTitleStart start) (hbefore : ∀ c ∈ before, isWhiteSpace c = true) :
    IsTitleStart (before ++ start) := by
  obtain ⟨indent, gap, rfl, hindent, hne, hgap⟩ := h
  refine ⟨before ++ indent, gap, by simp, ?_, hne, hgap⟩
  intro c hc
  rcases List.mem_append.mp hc with hc | hc
  · exact hbefore c hc
  · exact hindent c hc

theorem titleOf?_append_left {before line : List Char}
    (h : ∀ c ∈ before, isWhiteSpace c = true) :
    titleOf? (before ++ line) =
      (titleOf? line).map fun (start, name) => (before ++ start, name) := by
  rw [titleOf?, titleOf?, groupTitle?, groupTitle?,
    List.dropWhile_append_of_pos h, List.takeWhile_append_of_pos h]
  simp only
  cases after? "subgraph".toList (line.dropWhile isWhiteSpace) with
  | none => rfl
  | some rest =>
      rw [Option.bind_some, Option.bind_some]
      split
      next => rfl
      next => simp only [Option.filter]; split <;> simp

/-! ### The rewritten line -/

/-- An annotation stands behind the title, with a gap of white space. -/
theorem annotation?_eq_some {name title note : List Char}
    (h : annotation? name = some (title, note)) :
    ∃ gap inner, name = title ++ (gap ++ note) ∧ note = '|' :: inner ++ ['|'] ∧
      (∀ c ∈ gap, isWhiteSpace c = true) ∧
      ∀ c ∈ title.getLast?, isWhiteSpace c = false := by
  rw [annotation?] at h
  obtain ⟨inside, hfinal, hmap⟩ := Option.bind_eq_some_iff.mp h
  obtain ⟨⟨before, inner⟩, hcut, heq⟩ := Option.map_eq_some_iff.mp hmap
  obtain ⟨rfl, rfl⟩ := Prod.mk.inj heq
  obtain ⟨gap, hgap, hwhite⟩ := exists_eq_dropWhileEnd_append isWhiteSpace before
  refine ⟨gap, inner, ?_, rfl, hwhite, last_trimEnd before⟩
  rw [eq_of_beforeFinal?_eq_some hfinal, eq_of_cutLast?_eq_some hcut]
  conv_lhs => rw [hgap]
  simp [trimEnd]

/-- The title in quotes with its annotation, if it calls for quotes. -/
def quotedName? (name : List Char) : Option (List Char) :=
  if name.head? == some '"' || name.contains '[' then none
  else
    match annotation? name with
    | some (title, note) =>
      if isBareTitle title then
        some ('"' :: (escape title ++ '"' :: ' ' :: note))
      else none
    | none =>
      if isBareTitle name then some ('"' :: (escape name ++ ['"'])) else none

theorem quotedName?_eq_some {name out : List Char}
    (h : quotedName? name = some out) :
    name.head? ≠ some '"' ∧ '[' ∉ name ∧ ∃ title after,
      out = '"' :: (escape title ++ '"' :: after) ∧
      isBareTitle title = true ∧
      (annotation? name = none ∧ title = name ∧ after = [] ∨
        ∃ note, annotation? name = some (title, note) ∧ after = ' ' :: note) := by
  rw [quotedName?] at h
  split at h
  next => exact absurd h (by simp)
  next hplain =>
    rw [Bool.or_eq_true, not_or] at hplain
    refine ⟨by simpa using hplain.1, by simpa using hplain.2, ?_⟩
    cases hnote : annotation? name with
    | none =>
        rw [hnote] at h
        simp only at h
        split at h
        next hbare =>
          exact ⟨name, [], (Option.some.inj h).symm, hbare, .inl ⟨rfl, rfl, rfl⟩⟩
        next => exact absurd h (by simp)
    | some parts =>
        obtain ⟨title, note⟩ := parts
        rw [hnote] at h
        simp only at h
        split at h
        next hbare =>
          exact ⟨title, ' ' :: note, (Option.some.inj h).symm, hbare,
            .inr ⟨note, rfl, rfl⟩⟩
        next => exact absurd h (by simp)

theorem isTrimmed_quotedName {name out : List Char}
    (h : quotedName? name = some out) : IsTrimmed out := by
  obtain ⟨-, -, title, after, rfl, -, hafter⟩ := quotedName?_eq_some h
  refine ⟨?_, ?_⟩
  · rintro c ⟨rfl⟩
    decide
  · rcases hafter with ⟨-, -, rfl⟩ | ⟨note, hnote, rfl⟩
    · rw [← List.cons_append, List.getLast?_concat]
      rintro c ⟨rfl⟩
      decide
    · obtain ⟨gap, inner, -, rfl, -⟩ := annotation?_eq_some hnote
      have hshape : '"' :: (escape title ++ '"' :: ' ' :: ('|' :: inner ++ ['|'])) =
          '"' :: (escape title ++ '"' :: ' ' :: '|' :: inner) ++ ['|'] := by
        simp
      rw [hshape, List.getLast?_concat]
      rintro c ⟨rfl⟩
      decide

/-- The line with its title in quotes, if the title calls for them. -/
def retitled? (line : List Char) : Option (List Char) :=
  (titleOf? line).bind fun (start, name) =>
    (quotedName? name).map fun out => start ++ out

theorem retitled?_eq_some {line out : List Char}
    (h : retitled? line = some out) :
    ∃ start name quoted, titleOf? line = some (start, name) ∧
      quotedName? name = some quoted ∧ out = start ++ quoted := by
  obtain ⟨⟨start, name⟩, htitle, hmap⟩ := Option.bind_eq_some_iff.mp h
  obtain ⟨quoted, hquoted, hout⟩ := Option.map_eq_some_iff.mp hmap
  exact ⟨start, name, quoted, htitle, hquoted, hout.symm⟩

theorem quoteTitle_eq (line : List Char) :
    quoteTitle line = (retitled? line).getD line := by
  have hsame : titleOf? (dropWhileEnd (· == '\r') line) = titleOf? line := by
    obtain ⟨tail, hline, htail⟩ :=
      exists_eq_dropWhileEnd_append (· == '\r') line
    conv_rhs => rw [hline]
    refine (titleOf?_append ?_).symm
    intro c hc
    rw [beq_iff_eq.mp (htail c hc)]
    decide
  rw [retitled?, ← hsame, titleOf?, quoteTitle]
  cases groupTitle? (dropWhileEnd (· == '\r') line) with
  | none => rfl
  | some parts =>
      obtain ⟨start, name⟩ := parts
      simp only [Option.filter]
      by_cases hname : name.isEmpty = true
      · simp [hname]
      · simp only [hname, Bool.false_or, Bool.not_false, if_true,
          Option.bind_some]
        rw [quotedName?]
        split
        next => rfl
        next =>
          cases annotation? name with
          | none =>
              simp only
              split <;> simp
          | some parts =>
              obtain ⟨title, note⟩ := parts
              simp only
              split <;> simp

theorem quoteTitle_of_none {line : List Char} (h : retitled? line = none) :
    quoteTitle line = line := by
  rw [quoteTitle_eq, h, Option.getD_none]

theorem retitled?_append {line tail : List Char}
    (h : ∀ c ∈ tail, isWhiteSpace c = true) :
    retitled? (line ++ tail) = retitled? line := by
  rw [retitled?, retitled?, titleOf?_append h]

theorem retitled?_append_left {before line : List Char}
    (h : ∀ c ∈ before, isWhiteSpace c = true) :
    retitled? (before ++ line) = (retitled? line).map (before ++ ·) := by
  rw [retitled?, retitled?, titleOf?_append_left h]
  cases titleOf? line with
  | none => rfl
  | some parts => simp [Function.comp_def]

/-- A title that has got its quotes is left alone. -/
theorem retitled?_quoteTitle (line : List Char) :
    retitled? (quoteTitle line) = none := by
  rw [quoteTitle_eq]
  cases h : retitled? line with
  | none => exact h
  | some out =>
      obtain ⟨start, name, quoted, htitle, hquoted, rfl⟩ := retitled?_eq_some h
      obtain ⟨-, -, title, after, hshape, -⟩ := quotedName?_eq_some hquoted
      have htitle' : titleOf? (start ++ quoted) = some (start, quoted) := by
        apply titleOf?_eq_some_iff.mpr
        exact ⟨(titleOf?_eq_some_iff.mp htitle).1, by simp [hshape],
          isTrimmed_quotedName hquoted, [], by simp, by simp⟩
      have hnone : quotedName? quoted = none := by
        rw [quotedName?, if_pos (by simp [hshape])]
      rw [Option.getD_some, retitled?, htitle', Option.bind_some]
      simp only [hnone, Option.map_none]

theorem retitled?_of_mem {line : List Char} (h : '[' ∈ line) :
    retitled? line = none := by
  rw [Option.eq_none_iff_forall_ne_some]
  intro out hout
  obtain ⟨start, name, quoted, htitle, hquoted, -⟩ := retitled?_eq_some hout
  obtain ⟨hstart, -, -, tail, rfl, htail⟩ := titleOf?_eq_some_iff.mp htitle
  obtain ⟨-, hname, -⟩ := quotedName?_eq_some hquoted
  obtain ⟨indent, gap, rfl, hindent, -, hgap⟩ := hstart
  have hwhite : isWhiteSpace '[' = false := by decide
  simp only [List.mem_append] at h
  rcases h with (h | h | h) | h | h
  · rw [hindent _ h] at hwhite
    exact Bool.noConfusion hwhite
  · exact absurd h (by decide)
  · rw [hgap _ h] at hwhite
    exact Bool.noConfusion hwhite
  · exact hname h
  · rw [htail _ h] at hwhite
    exact Bool.noConfusion hwhite

theorem mem_escape {c : Char} {text : List Char} (h : c ∈ escape text) :
    c ∈ text ∨ c = '\\' := by
  obtain ⟨d, hd, hc⟩ := List.mem_flatMap.mp h
  split at hc
  next => grind
  next => grind

theorem mem_quotedName {name out : List Char}
    (h : quotedName? name = some out) {c : Char} (hc : c ∈ out) :
    c ∈ name ∨ c ∈ ['"', '\\', ' '] := by
  obtain ⟨-, -, title, after, rfl, -, hafter⟩ := quotedName?_eq_some h
  have hparts : (∀ d ∈ title, d ∈ name) ∧ ∀ d ∈ after, d ∈ name ∨ d = ' ' := by
    rcases hafter with ⟨-, rfl, rfl⟩ | ⟨note, hnote, rfl⟩
    · exact ⟨fun _ hd => hd, by simp⟩
    · obtain ⟨gap, inner, rfl, -⟩ := annotation?_eq_some hnote
      refine ⟨fun d hd => List.mem_append_left _ hd, ?_⟩
      intro d hd
      rcases List.mem_cons.mp hd with rfl | hd
      · exact .inr rfl
      · exact .inl (by simp [hd])
  rw [List.mem_cons, List.mem_append, List.mem_cons] at hc
  rcases hc with rfl | hc | rfl | hc
  · simp
  · rcases mem_escape hc with hc | rfl
    · exact .inl (hparts.1 c hc)
    · simp
  · simp
  · rcases hparts.2 c hc with hc | rfl
    · exact .inl hc
    · simp

theorem not_mem_quoteTitle {line : List Char} (h : '\n' ∉ line) :
    '\n' ∉ quoteTitle line := by
  rw [quoteTitle_eq]
  cases hout : retitled? line with
  | none => exact h
  | some out =>
      obtain ⟨start, name, quoted, htitle, hquoted, rfl⟩ := retitled?_eq_some hout
      obtain ⟨-, -, -, tail, rfl, -⟩ := titleOf?_eq_some_iff.mp htitle
      intro hmem
      rw [Option.getD_some, List.mem_append] at hmem
      rcases hmem with hmem | hmem
      · exact h (List.mem_append_left _ hmem)
      · rcases mem_quotedName hquoted hmem with hname | hadded
        · exact h (by simp [hname])
        · exact absurd hadded (by decide)

end Flowchart.Sanitize
