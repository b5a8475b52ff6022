import Flowchart.Proofs.QuotedChains

/-!
# Quoted titles of groups

A title without quotes that calls for them has no other form, so that it names
the group and gives it its id.  In quotes it does the same.  Behind an id, a
title in brackets may get quotes like the label of a node.
-/

namespace Flowchart.Text

theorem beforeFinal?_concat (mark : Char) (text : List Char) :
    beforeFinal? mark (text ++ [mark]) = some text := by
  simp [beforeFinal?]

theorem beforeFinal?_eq_none {mark : Char} {text : List Char}
    (h : text.getLast? ≠ some mark) : beforeFinal? mark text = none := by
  rw [← List.head?_reverse] at h
  unfold beforeFinal?
  cases hreverse : text.reverse with
  | nil => rfl
  | cons c before =>
      rw [hreverse] at h
      simp only
      rw [if_neg]
      intro hc
      exact h (congrArg some hc)

theorem cutLast?_append {mark : Char} {last : List Char} (h : mark ∉ last)
    (before : List Char) :
    cutLast? mark (before ++ mark :: last) = some (before, last) := by
  have hlast : ∀ c ∈ last.reverse, (c != mark) = true := by
    intro c hc
    have hne : c ≠ mark := by
      intro hmark
      rw [hmark, List.mem_reverse] at hc
      exact h hc
    simpa using hne
  have hreverse : (before ++ mark :: last).reverse =
      last.reverse ++ mark :: before.reverse := by simp
  rw [cutLast?, hreverse, List.span_eq_takeWhile_dropWhile,
    List.takeWhile_append_of_pos hlast, List.dropWhile_append_of_pos hlast]
  simp

theorem not_mem_of_cutLast? {mark : Char} {text before last : List Char}
    (h : cutLast? mark text = some (before, last)) : mark ∉ last := by
  rw [cutLast?, List.span_eq_takeWhile_dropWhile] at h
  split at h
  next => exact absurd h (by simp)
  next kept c rest heq =>
    obtain ⟨rfl, -⟩ := Prod.mk.inj heq
    obtain ⟨-, rfl⟩ := Prod.mk.inj (Option.some.inj h)
    intro hmem
    have := List.mem_takeWhile_imp (List.mem_reverse.mp hmem)
    simp at this

end Flowchart.Text

namespace Flowchart.Sanitize

open Text

/-- An annotation that may stand behind a title, with the gap before it. -/
def IsNote (note : List Char) : Prop :=
  note = [] ∨ ∃ gap inner, note = gap ++ ('|' :: inner ++ ['|']) ∧
    (∀ c ∈ gap, isWhiteSpace c = true) ∧ '|' ∉ inner

theorem annotation?_append {inner : List Char} (h : '|' ∉ inner)
    (text : List Char) :
    annotation? (text ++ ('|' :: inner ++ ['|'])) =
      some (trimEnd text, '|' :: inner ++ ['|']) := by
  have hshape : text ++ ('|' :: inner ++ ['|']) =
      (text ++ '|' :: inner) ++ ['|'] := by simp
  rw [annotation?, hshape, beforeFinal?_concat, Option.bind_some,
    cutLast?_append h, Option.map_some]

theorem annotation?_eq_none {text : List Char}
    (h : text.getLast? ≠ some '|') : annotation? text = none := by
  rw [annotation?, beforeFinal?_eq_none h, Option.bind_none]

theorem isNote_of_annotation? {name title note : List Char}
    (h : annotation? name = some (title, note)) : IsNote (' ' :: note) := by
  obtain ⟨inside, -, hmap⟩ := Option.bind_eq_some_iff.mp h
  obtain ⟨⟨before, inner⟩, hcut, heq⟩ := Option.map_eq_some_iff.mp hmap
  obtain ⟨-, rfl⟩ := Prod.mk.inj heq
  exact .inr ⟨[' '], inner, rfl, by simp [isWhiteSpace_of_isBlank, isBlank],
    not_mem_of_cutLast? hcut⟩

end Flowchart.Sanitize

namespace Flowchart.Grammar

open Text Sanitize

theorem withoutAnnotation_eq (text : List Char) :
    withoutAnnotation text =
      ((annotation? (trim text)).map Prod.fst).getD (trim text) := by
  unfold withoutAnnotation
  simp only
  cases annotation? (trim text) <;> rfl

theorem withoutAnnotation_append {gap title note : List Char}
    (hgap : ∀ c ∈ gap, isWhiteSpace c = true) (htitle : IsTrimmed title)
    (hlast : title.getLast? ≠ some '|') (hne : title ≠ [])
    (hnote : IsNote note) :
    withoutAnnotation (gap ++ (title ++ note)) = title := by
  rw [withoutAnnotation_eq, trim_append_of_isWhiteSpace _ hgap]
  rcases hnote with rfl | ⟨space, inner, rfl, hspace, hinner⟩
  · rw [List.append_nil, htitle.trim_eq]
    rw [annotation?_eq_none hlast]
    rfl
  · have hshape : title ++ (space ++ ('|' :: inner ++ ['|'])) =
        (title ++ space) ++ ('|' :: inner ++ ['|']) := by simp
    have htrimmed : IsTrimmed ((title ++ space) ++ ('|' :: inner ++ ['|'])) := by
      have hhead := htitle.head
      constructor
      · cases title with
        | nil => exact absurd rfl hne
        | cons c title => exact hhead
      · rw [← List.append_assoc, List.getLast?_concat]
        rintro c ⟨rfl⟩
        decide
    rw [hshape, htrimmed.trim_eq, annotation?_append hinner,
      Option.map_some, Option.getD_some, trimEnd,
      dropWhileEnd_append_of_all title hspace]
    exact trimEnd_eq_self htitle.last

theorem idTail_spec (text : List Char) :
    (idTail text).1 ++ (idTail text).2 = text ∧
      ∀ c ∈ (idTail text).1, isClassChar c = true := by
  induction text with
  | nil => simp [idTail]
  | cons c rest ih =>
      unfold idTail
      split
      next hc =>
        refine ⟨congrArg (c :: ·) ih.1, ?_⟩
        rw [List.forall_mem_cons]
        refine ⟨?_, ih.2⟩
        unfold isClassChar
        rw [Bool.or_eq_true, Bool.and_eq_true] at hc
        rw [Bool.or_eq_true]
        exact hc.imp id And.left
      next => exact ⟨rfl, by simp⟩

theorem plainHeader?_eq_none {title : List Char} (h : needsQuotes title = true) :
    plainHeader? title = none := by
  unfold plainHeader? whole? id?
  split
  next => rfl
  next =>
    obtain ⟨hsplit, htail⟩ := idTail_spec title
    have hrest : isRest (idTail title).2 = false := by
      rw [Bool.eq_false_iff]
      intro hrest
      obtain ⟨c, hc, hmark⟩ := List.any_eq_true.mp h
      have hplain : ['(', ')', '"', '[', ']', ',', ':', ';'].all
          (fun c => !isClassChar c && !isFiller c) = true := by decide
      have hnone : isClassChar c = false ∧ isFiller c = false := by
        simpa using
          List.all_eq_true.mp hplain c (List.contains_iff_mem.mp hmark)
      rw [← hsplit, List.mem_append] at hc
      rcases hc with hc | hc
      · rw [htail c hc] at hnone
        exact absurd hnone.1 (by simp)
      · rw [List.all_eq_true.mp hrest c hc] at hnone
        exact absurd hnone.2 (by simp)
    simp [hrest]

theorem titledHeader?_eq_none {title : List Char} (h : '[' ∉ title) :
    titledHeader? title = none := by
  unfold titledHeader? id?
  split
  next => rfl
  next =>
    obtain ⟨hsplit, -⟩ := idTail_spec title
    have hnone : after? ['['] ((idTail title).2.dropWhile isFiller) = none := by
      rw [after?_eq_none_iff]
      intro hstart
      have hmem : '[' ∈ (idTail title).2 :=
        (List.dropWhile_sublist isFiller).subset
          (hstart.subset List.mem_cons_self)
      apply h
      rw [← hsplit]
      exact List.mem_append_right _ hmem
    simp [hnone]

theorem groupHeader_bare {text title : List Char}
    (h : withoutAnnotation text = title) (htitle : isBareTitle title = true)
    (hbracket : '[' ∉ title) : groupHeader text = freeHeader title := by
  unfold isBareTitle at htitle
  rw [Bool.and_eq_true, bne_iff_ne] at htitle
  have hne : title.isEmpty = false := by
    cases title with
    | nil => exact absurd htitle.2 (by decide)
    | cons => rfl
  unfold groupHeader
  simp only [h, hne, Bool.false_eq_true, if_false, titleHeader?, whole?,
    quotedString?_eq_none htitle.1, titledHeader?_eq_none hbracket,
    plainHeader?_eq_none htitle.2]
  rfl

theorem groupHeader_quoted {text title : List Char}
    (h : withoutAnnotation text = '"' :: (escape title ++ ['"']))
    (hline : '\n' ∉ title) :
    groupHeader text =
      ⟨none, some (String.ofList (Label.normalize title false))⟩ := by
  unfold groupHeader
  rw [h]
  have htitle : titleHeader? ('"' :: (escape title ++ ['"'])) =
      some ⟨none, some (String.ofList (Label.normalize title false))⟩ := by
    rw [titleHeader?, quotedString?_escape, whole?, Option.bind_some]
    have hrest : isRest [] = true := rfl
    simp [hrest, Label.normalize_escape hline]
  simp only [htitle]
  rfl

/-- A title that gets quotes names its group, and gives it its id, as before. -/
theorem resolved_groupHeader_quoted {text out title : List Char}
    (htext : withoutAnnotation text = title)
    (hout : withoutAnnotation out = '"' :: (escape title ++ ['"']))
    (hbare : isBareTitle title = true) (hbracket : '[' ∉ title)
    (hline : '\n' ∉ title) :
    (groupHeader out).resolved = (groupHeader text).resolved := by
  rw [groupHeader_bare htext hbare hbracket, groupHeader_quoted hout hline]
  simp [GroupHeader.resolved, freeHeader]

theorem exists_cons_of_isName {name : List Char} (h : IsName name) :
    ∃ c rest, name = c :: rest ∧ isIdChar c = true := by
  cases name with
  | nil => exact absurd h (by simp [IsName, id?, endsId])
  | cons c rest =>
      refine ⟨c, rest, rfl, ?_⟩
      unfold IsName id? at h
      split at h
      next => exact absurd h (by simp)
      next hstart => simpa [endsId] using hstart

theorem groupHeader_labelled {text name label inside : List Char}
    (h : withoutAnnotation text = name ++ '[' :: inside) (hname : IsName name)
    (hlabel : label? [']'] inside = some (label, [])) :
    groupHeader text =
      ⟨some (String.ofList name), some (String.ofList label)⟩ := by
  have hquote : (name ++ '[' :: inside).head? ≠ some '"' := by
    obtain ⟨c, rest, rfl, hc⟩ := exists_cons_of_isName hname
    rintro ⟨rfl⟩
    exact absurd hc (by decide)
  have hopen : after? ['['] (('[' :: inside).dropWhile isFiller) = some inside :=
    after?_singleton '[' inside
  have hrest : isRest [] = true := rfl
  have htitled : titledHeader? (name ++ '[' :: inside) =
      some ⟨some (String.ofList name), some (String.ofList label)⟩ := by
    rw [titledHeader?, id?_bracket hname, Option.bind_some]
    simp only [hopen, Option.bind_some, hlabel, whole?, hrest, if_true,
      Option.map_some]
  have hempty : (name ++ '[' :: inside).isEmpty = false := by
    cases name <;> rfl
  unfold groupHeader
  simp only [h, hempty, Bool.false_eq_true, if_false, titleHeader?, whole?,
    quotedString?_eq_none hquote, htitled]
  rfl

/-! ### Statements that open groups -/

theorem opening?_subgraph (rest : List Char) :
    Keyword.opening? ("subgraph".toList ++ rest) = none := by
  rw [Option.eq_none_iff_forall_ne_some]
  intro parts h
  obtain ⟨hmem, htext, -⟩ := Keyword.opening?_eq_some_iff.mp h
  have hkeywords : ∀ keyword ∈ Keyword.all,
      ¬ keyword <+: "subgraph".toList ∧ ¬ "subgraph".toList <+: keyword := by
    decide
  have hword : "subgraph".toList <+: "subgraph".toList ++ rest :=
    List.prefix_append _ _
  have hkeyword : parts.1 <+: "subgraph".toList ++ rest :=
    ⟨parts.2, htext.symm⟩
  rcases List.prefix_or_prefix_of_prefix hkeyword hword with hpre | hpre
  · exact (hkeywords _ hmem).1 hpre
  · exact (hkeywords _ hmem).2 hpre

theorem not_opens_subgraph {rest : List Char} (h : '\n' ∉ rest) :
    Keyword.opens ("subgraph".toList ++ rest) = false := by
  have hline : '\n' ∉ "subgraph".toList ++ rest := by
    rw [List.mem_append, not_or]
    exact ⟨by decide, h⟩
  have hdrop : (trimStart ("subgraph".toList ++ rest)).dropWhile isBlank =
      "subgraph".toList ++ rest := rfl
  rw [opens_eq hline, Keyword.opensLine, hdrop, opening?_subgraph]
  rfl

theorem meaning_subgraph {c : Char} (hc : isFiller c = true) {rest : List Char}
    (hline : '\n' ∉ c :: rest) :
    meaning ("subgraph".toList ++ c :: rest) =
      (some (.openGroup (groupHeader rest).resolved), none) := by
  have hgroup : openGroup? ("subgraph".toList ++ c :: rest) =
      some (groupHeader rest) := by
    rw [openGroup?, after?_append]
    simp only [hc, if_true]
  rw [meaning, headerDirection?_of_not_opens (not_opens_subgraph hline),
    effect?, hgroup]
  rfl

theorem trim_titleLine (gap : List Char) {indent name tail : List Char}
    (hindent : ∀ c ∈ indent, isWhiteSpace c = true)
    (htail : ∀ c ∈ tail, isWhiteSpace c = true) (hname : IsTrimmed name)
    (hne : name ≠ []) :
    trim (indent ++ ("subgraph".toList ++ gap) ++ (name ++ tail)) =
      "subgraph".toList ++ (gap ++ name) := by
  have htrimmed : IsTrimmed ("subgraph".toList ++ (gap ++ name)) := by
    constructor
    · rintro c ⟨rfl⟩
      decide
    · intro c hc
      apply hname.last
      rw [← List.append_assoc, List.getLast?_append] at hc
      cases hlast : name.getLast? with
      | none => exact absurd (List.getLast?_eq_none_iff.mp hlast) hne
      | some d => simpa [hlast] using hc
  have hshape : indent ++ ("subgraph".toList ++ gap) ++ (name ++ tail) =
      indent ++ (("subgraph".toList ++ (gap ++ name)) ++ tail) := by simp
  rw [hshape, trim_append_of_isWhiteSpace _ hindent,
    trim_append_isWhiteSpace _ htail, htrimmed.trim_eq]

theorem withoutAnnotation_trimmed {gap name : List Char}
    (hgap : ∀ c ∈ gap, isWhiteSpace c = true) (hname : IsTrimmed name) :
    withoutAnnotation (gap ++ name) =
      ((annotation? name).map Prod.fst).getD name := by
  rw [withoutAnnotation_eq, trim_append_of_isWhiteSpace _ hgap, hname.trim_eq]

/-- The title that a line gets quotes for is the one that is read from it, with
and without the quotes. -/
theorem withoutAnnotation_quotedName {name quoted : List Char}
    (hname : IsTrimmed name) (h : quotedName? name = some quoted) :
    ∃ title, isBareTitle title = true ∧ (∀ c ∈ title, c ∈ name) ∧
      ∀ gap, (∀ c ∈ gap, isWhiteSpace c = true) →
        withoutAnnotation (gap ++ name) = title ∧
          withoutAnnotation (gap ++ quoted) = '"' :: (escape title ++ ['"']) := by
  obtain ⟨-, -, title, after, rfl, hbare, hafter⟩ := quotedName?_eq_some h
  have hquoted : ∀ gap, (∀ c ∈ gap, isWhiteSpace c = true) → IsNote after →
      withoutAnnotation (gap ++ '"' :: (escape title ++ '"' :: after)) =
        '"' :: (escape title ++ ['"']) := by
    intro gap hgap hnote
    have hshape : '"' :: (escape title ++ '"' :: after) =
        ('"' :: escape title ++ ['"']) ++ after := by simp
    have hlast : ('"' :: escape title ++ ['"']).getLast? = some '"' :=
      List.getLast?_concat
    rw [hshape]
    refine withoutAnnotation_append hgap ⟨?_, ?_⟩ ?_ (by simp) hnote
    · rintro c ⟨rfl⟩
      decide
    · rw [hlast]
      rintro c ⟨rfl⟩
      decide
    · rw [hlast]
      decide
  refine ⟨title, hbare, ?_, fun gap hgap => ⟨?_, hquoted gap hgap ?_⟩⟩
  · rcases hafter with ⟨-, rfl, -⟩ | ⟨note, hnote, -⟩
    · exact fun _ hc => hc
    · obtain ⟨space, inner, rfl, -⟩ := annotation?_eq_some hnote
      exact fun c hc => List.mem_append_left _ hc
  · rw [withoutAnnotation_trimmed hgap hname]
    rcases hafter with ⟨hnone, rfl, -⟩ | ⟨note, hnote, -⟩
    · rw [hnone]
      rfl
    · rw [hnote]
      rfl
  · rcases hafter with ⟨-, -, rfl⟩ | ⟨note, hnote, rfl⟩
    · exact .inl rfl
    · exact isNote_of_annotation? hnote

/-- The statement of a line that opens a group, before and after its title gets
quotes. -/
theorem trim_retitled {line out : List Char} (h : retitled? line = some out) :
    ∃ gap name quoted, trim line = "subgraph".toList ++ (gap ++ name) ∧
      trim out = "subgraph".toList ++ (gap ++ quoted) ∧
      gap ≠ [] ∧ (∀ c ∈ gap, isWhiteSpace c = true) ∧ IsTrimmed name ∧
      quotedName? name = some quoted ∧ ∀ c ∈ gap ++ name, c ∈ line := by
  obtain ⟨start, name, quoted, htitle, hquoted, rfl⟩ := retitled?_eq_some h
  obtain ⟨⟨indent, gap, rfl, hindent, hgapNe, hgap⟩, hne, hname, tail, rfl,
    htail⟩ := titleOf?_eq_some_iff.mp htitle
  have hquotedNe : quoted ≠ [] := by
    obtain ⟨-, -, title, after, rfl, -⟩ := quotedName?_eq_some hquoted
    simp
  have hempty : ∀ c ∈ ([] : List Char), isWhiteSpace c = true := by simp
  refine ⟨gap, name, quoted, trim_titleLine gap hindent htail hname hne, ?_,
    hgapNe, hgap, hname, hquoted, ?_⟩
  · have htrim := trim_titleLine gap hindent hempty
      (isTrimmed_quotedName hquoted) hquotedNe
    rwa [List.append_nil] at htrim
  · intro c hc
    rcases List.mem_append.mp hc with hc | hc <;> simp [hc]

/-- A line that opens a group means the same with its title in quotes. -/
theorem meaning_retitled {line out : List Char} (h : retitled? line = some out)
    (hgroup : (openGroup? (trim line)).isSome = true) (hline : '\n' ∉ line) :
    meaning (trim out) = meaning (trim line) := by
  obtain ⟨gap, name, quoted, htrim, htrim', hgapNe, hgap, hname, hquoted, hmem⟩ :=
    trim_retitled h
  obtain ⟨title, hbare, htitle, htitles⟩ :=
    withoutAnnotation_quotedName hname hquoted
  have hbreak : '\n' ∉ gap ++ name := fun hin => hline (hmem _ hin)
  have htitleLine : '\n' ∉ title := fun hin =>
    hbreak (List.mem_append_right gap (htitle _ hin))
  have hbreak' : '\n' ∉ gap ++ quoted := by
    rw [List.mem_append, not_or] at hbreak ⊢
    refine ⟨hbreak.1, fun hin => ?_⟩
    rcases mem_quotedName hquoted hin with hin | hin
    · exact hbreak.2 hin
    · exact absurd hin (by decide)
  cases gap with
  | nil => exact absurd rfl hgapNe
  | cons c gap =>
      rw [List.forall_mem_cons] at hgap
      rw [List.cons_append] at htrim htrim' hbreak hbreak'
      have hc : isFiller c = true := by
        rw [htrim, openGroup?, after?_append] at hgroup
        by_contra hc
        simp [hc] at hgroup
      obtain ⟨hread, hread'⟩ := htitles gap hgap.2
      have hsame := resolved_groupHeader_quoted hread hread' hbare
        (fun hin => (quotedName?_eq_some hquoted).2.1 (htitle _ hin)) htitleLine
      rw [htrim, htrim', meaning_subgraph hc hbreak',
        meaning_subgraph hc hbreak, hsame]

/-! ### Titles behind an id -/

theorem isTrimmed_name_append {name rest : List Char} (hname : IsName name)
    (hlast : rest.getLast? = some ']') :
    IsTrimmed (name ++ rest) ∧ (name ++ rest).getLast? = some ']' := by
  have hwhole : (name ++ rest).getLast? = some ']' := by
    rw [List.getLast?_append, hlast, Option.some_or]
  refine ⟨⟨?_, ?_⟩, hwhole⟩
  · obtain ⟨c, letters, rfl, hc⟩ := exists_cons_of_isName hname
    rintro d ⟨rfl⟩
    rw [Bool.eq_false_iff]
    intro hwhite
    unfold isIdChar at hc
    rw [isAlphanumeric_of_isWhiteSpace hwhite, Bool.false_or, beq_iff_eq] at hc
    rw [hc] at hwhite
    exact absurd hwhite (by decide)
  · rw [hwhole]
    rintro c ⟨rfl⟩
    decide

theorem meaning_labelledGroup {c : Char} {gap name body note : List Char}
    (hc : isFiller c = true) (hgap : ∀ c ∈ gap, isWhiteSpace c = true)
    (hname : IsName name) (hbody : IsLabelBody body) (hnote : IsNote note)
    (hline : '\n' ∉ c :: (gap ++ (name ++ '[' :: (body ++ ']' :: note)))) :
    meaning ("subgraph".toList ++
        c :: (gap ++ (name ++ (quotedLabel body ++ note)))) =
      meaning ("subgraph".toList ++
        c :: (gap ++ (name ++ '[' :: (body ++ ']' :: note)))) := by
  have hlast : ('[' :: body ++ [']']).getLast? = some ']' :=
    List.getLast?_concat
  have hbare := isTrimmed_name_append hname hlast
  have hquoted := isTrimmed_name_append hname (getLast?_quotedLabel body)
  have hread : withoutAnnotation
      (gap ++ (name ++ '[' :: (body ++ ']' :: note))) =
        name ++ '[' :: (body ++ [']']) := by
    have hshape : name ++ '[' :: (body ++ ']' :: note) =
        (name ++ ('[' :: body ++ [']'])) ++ note := by simp
    rw [hshape, withoutAnnotation_append hgap hbare.1
      (by rw [hbare.2]; decide) (by simp) hnote]
    simp
  have hread' : withoutAnnotation (gap ++ (name ++ (quotedLabel body ++ note))) =
      name ++ '[' :: ('"' :: (escape body ++ '"' :: [']'])) := by
    rw [← List.append_assoc name, withoutAnnotation_append hgap hquoted.1
      (by rw [hquoted.2]; decide) (by simp [quotedLabel]) hnote]
    simp [quotedLabel]
  rw [meaning_subgraph hc, meaning_subgraph hc hline,
    groupHeader_labelled hread hname (label?_bare hbody []),
    groupHeader_labelled hread' hname (label?_quoted hbody.line [])]
  have hlabel := not_mem_quotedLabel hbody.line
  simp_all

end Flowchart.Grammar
