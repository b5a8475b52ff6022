import Flowchart.Proofs.QuotedChains
import Flowchart.Proofs.QuotedTitles

/-!
# Spellings of connectors

Every connector can be spelled longer than its token, with more of one of the
marks in it.  The grammar tries its connectors in a fixed order and some of them
start alike, but every spelling is read as the connector that it is written for,
with or without a label in quotes between bars behind it.
-/

namespace Flowchart

open Text

namespace Connector

/-- The character that a longer spelling has more of. -/
def mark : Connector → Char
  | .dottedArrow | .dottedLine => '.'
  | .thickArrow | .thickLine => '='
  | .invisible => '~'
  | _ => '-'

/-- The token with more marks in front of those that it has. -/
def spelling (connector : Connector) (extra : ℕ) : List Char :=
  connector.token.toList.takeWhile (· != connector.mark) ++
    (List.replicate extra connector.mark ++
      connector.token.toList.dropWhile (· != connector.mark))

theorem spelling_zero (connector : Connector) :
    connector.spelling 0 = connector.token.toList := by
  rw [spelling, List.replicate_zero, List.nil_append,
    List.takeWhile_append_dropWhile]

theorem spelling_append (connector : Connector) (extra : ℕ) (rest : List Char) :
    connector.spelling extra ++ rest =
      connector.token.toList.takeWhile (· != connector.mark) ++
        (List.replicate extra connector.mark ++
          (connector.token.toList.dropWhile (· != connector.mark) ++ rest)) := by
  rw [spelling, List.append_assoc, List.append_assoc]

end Connector

namespace Grammar

/-! ### Runs of marks -/

theorem run?_replicate {mark : Char} {rest : List Char}
    (hrest : ∀ c ∈ rest.head?, c ≠ mark) (least count : ℕ) :
    run? mark least (List.replicate count mark ++ rest) =
      if least ≤ count then some (count, rest) else none := by
  have hstop : rest.takeWhile (· == mark) = [] := by
    cases rest with
    | nil => rfl
    | cons c rest => simp [hrest c rfl]
  have htake : (List.replicate count mark ++ rest).takeWhile (· == mark) =
      List.replicate count mark := by
    rw [List.takeWhile_append_of_pos (by simp), hstop, List.append_nil]
  rw [run?, htake, List.length_replicate]
  simp

/-! ### Plain connectors -/

/-- What may stand behind a connector: nothing, filler, or a bar. -/
def EndsConnector (rest : List Char) : Prop :=
  ∀ c ∈ rest.head?, isFiller c = true ∨ c = '|'

namespace EndsConnector

variable {rest : List Char}

theorem ne (h : EndsConnector rest) (mark : Char)
    (hmark : isFiller mark = false ∧ mark ≠ '|') : ∀ c ∈ rest.head?, c ≠ mark := by
  intro c hc heq
  subst heq
  rcases h c hc with hfiller | hbar
  · exact absurd (hfiller.symm.trans hmark.1) (by decide)
  · exact hmark.2 hbar

theorem endsId (h : EndsConnector rest) : endsId rest = true := by
  cases rest with
  | nil => rfl
  | cons c rest =>
      have hid : isIdChar c = false := by
        rcases h c rfl with hfiller | rfl
        · exact isIdChar_of_isFiller hfiller
        · decide
      simp [Grammar.endsId, hid]

theorem after?_eq_none (h : EndsConnector rest) (mark : Char)
    (hmark : isFiller mark = false ∧ mark ≠ '|') : after? [mark] rest = none := by
  rw [after?_eq_none_iff]
  rintro ⟨more, rfl⟩
  exact h.ne mark hmark mark rfl rfl

theorem solidHead?_eq_none (h : EndsConnector rest) : solidHead? rest = none := by
  cases rest with
  | nil => rfl
  | cons c rest =>
      have harrow := h.ne '>' (by decide) c rfl
      have hcircle := h.ne 'o' (by decide) c rfl
      have hcross := h.ne 'x' (by decide) c rfl
      unfold solidHead?
      split <;> simp_all

theorem dottedHead_eq (h : EndsConnector rest) :
    dottedHead rest = (.dottedLine, rest) := by
  cases rest with
  | nil => rfl
  | cons c rest =>
      have harrow := h.ne '>' (by decide) c rfl
      unfold dottedHead
      split <;> simp_all

end EndsConnector

theorem solid?_replicate {rest : List Char}
    (hrest : ∀ c ∈ rest.head?, c ≠ '-') (extra : ℕ) :
    solid? (List.replicate (extra + 2) '-' ++ rest) =
      match solidHead? rest with
      | some head => some head
      | none => if 3 ≤ extra + 2 then some (.line, rest) else none := by
  rw [solid?, run?_replicate hrest, if_pos (by omega)]
  rfl

theorem thick?_replicate {rest : List Char}
    (hrest : ∀ c ∈ rest.head?, c ≠ '=') (extra : ℕ) :
    thick? (List.replicate (extra + 2) '=' ++ rest) =
      match after? ['>'] rest with
      | some rest => some (.thickArrow, rest)
      | none => if 3 ≤ extra + 2 then some (.thickLine, rest) else none := by
  rw [thick?, run?_replicate hrest, if_pos (by omega)]
  rfl

theorem afterDots?_replicate (rest : List Char) (extra : ℕ) :
    afterDots? ('-' :: (List.replicate (extra + 1) '.' ++ '-' :: rest)) =
      some rest := by
  rw [afterDots?, after?_singleton, Option.bind_some, run?_replicate (by simp),
    if_pos (by omega)]
  exact after?_singleton '-' rest

/-- What starts with two hyphens is left to the reader of solid edges. -/
theorem plainConnector?_dashes {rest : List Char} {extra : ℕ}
    {result : Connector × List Char}
    (h : solid? (List.replicate (extra + 2) '-' ++ rest) = some result) :
    plainConnector? (List.replicate (extra + 2) '-' ++ rest) = some result := by
  have hbidirectional :
      bidirectional? (List.replicate (extra + 2) '-' ++ rest) = none := rfl
  have hdotted : dotted? (List.replicate (extra + 2) '-' ++ rest) = none := rfl
  rw [plainConnector?, hbidirectional, hdotted, h]
  rfl

theorem plainConnector?_equals {rest : List Char} {extra : ℕ}
    {result : Connector × List Char}
    (h : thick? (List.replicate (extra + 2) '=' ++ rest) = some result) :
    plainConnector? (List.replicate (extra + 2) '=' ++ rest) = some result := by
  have hbidirectional :
      bidirectional? (List.replicate (extra + 2) '=' ++ rest) = none := rfl
  have hdotted : dotted? (List.replicate (extra + 2) '=' ++ rest) = none := rfl
  have hsolid : solid? (List.replicate (extra + 2) '=' ++ rest) = none := rfl
  rw [plainConnector?, hbidirectional, hdotted, hsolid, h]
  rfl

theorem plainConnector?_dots (rest : List Char) (extra : ℕ) :
    plainConnector? ('-' :: (List.replicate (extra + 1) '.' ++ '-' :: rest)) =
      some (dottedHead rest) := by
  have hbidirectional : bidirectional?
      ('-' :: (List.replicate (extra + 1) '.' ++ '-' :: rest)) = none := rfl
  rw [plainConnector?, hbidirectional, dotted?, afterDots?_replicate]
  rfl

theorem replicate_append (mark : Char) (extra count : ℕ) (rest : List Char) :
    List.replicate extra mark ++ (List.replicate count mark ++ rest) =
      List.replicate (extra + count) mark ++ rest := by
  rw [← List.append_assoc, List.replicate_append_replicate]

/-- A spelling starts with one of the characters that only connectors have. -/
theorem exists_cons_spelling (connector : Connector) (extra : ℕ) :
    ∃ c rest, connector.spelling extra = c :: rest ∧ c ∈ ['-', '<', '=', '~'] := by
  cases connector <;> cases extra <;> exact ⟨_, _, rfl, by decide⟩

/-- Every spelling of a connector is read as this connector. -/
theorem plainConnector?_spelling (connector : Connector) (extra : ℕ)
    {rest : List Char} (hrest : EndsConnector rest) :
    plainConnector? (connector.spelling extra ++ rest) =
      some (connector, rest) := by
  rw [Connector.spelling_append]
  -- In every case the marks of the token join the additional ones in one run.
  cases connector with
  | arrow =>
      change plainConnector? (List.replicate extra '-' ++
        (List.replicate 2 '-' ++ '>' :: rest)) = _
      rw [replicate_append]
      apply plainConnector?_dashes
      rw [solid?_replicate (by simp)]
      rfl
  | line =>
      change plainConnector? (List.replicate extra '-' ++
        (List.replicate 3 '-' ++ rest)) = _
      rw [replicate_append, ← Nat.add_assoc extra 1 2]
      apply plainConnector?_dashes
      rw [solid?_replicate (hrest.ne '-' (by decide)),
        hrest.solidHead?_eq_none]
      exact if_pos (by omega)
  | circle =>
      change plainConnector? (List.replicate extra '-' ++
        (List.replicate 2 '-' ++ 'o' :: rest)) = _
      rw [replicate_append]
      apply plainConnector?_dashes
      rw [solid?_replicate (by simp)]
      simp [solidHead?, hrest.endsId]
  | cross =>
      change plainConnector? (List.replicate extra '-' ++
        (List.replicate 2 '-' ++ 'x' :: rest)) = _
      rw [replicate_append]
      apply plainConnector?_dashes
      rw [solid?_replicate (by simp)]
      simp [solidHead?, hrest.endsId]
  | dottedArrow =>
      change plainConnector? ('-' :: (List.replicate extra '.' ++
        (List.replicate 1 '.' ++ '-' :: '>' :: rest))) = _
      rw [replicate_append, plainConnector?_dots]
      rfl
  | dottedLine =>
      change plainConnector? ('-' :: (List.replicate extra '.' ++
        (List.replicate 1 '.' ++ '-' :: rest))) = _
      rw [replicate_append, plainConnector?_dots, hrest.dottedHead_eq]
  | thickArrow =>
      change plainConnector? (List.replicate extra '=' ++
        (List.replicate 2 '=' ++ '>' :: rest)) = _
      rw [replicate_append]
      apply plainConnector?_equals
      rw [thick?_replicate (by simp)]
      rfl
  | thickLine =>
      change plainConnector? (List.replicate extra '=' ++
        (List.replicate 3 '=' ++ rest)) = _
      rw [replicate_append, ← Nat.add_assoc extra 1 2]
      apply plainConnector?_equals
      rw [thick?_replicate (hrest.ne '=' (by decide)),
        hrest.after?_eq_none '>' (by decide)]
      exact if_pos (by omega)
  | bidirectional =>
      change plainConnector? ('<' :: (List.replicate extra '-' ++
        (List.replicate 2 '-' ++ '>' :: rest))) = _
      rw [replicate_append, plainConnector?, bidirectional?, after?_singleton,
        Option.bind_some, afterBody?, run?_replicate (by simp),
        if_pos (by omega), Option.map_some, Option.bind_some, after?_singleton]
      rfl
  | invisible =>
      change plainConnector? (List.replicate extra '~' ++
        (List.replicate 3 '~' ++ rest)) = _
      rw [replicate_append]
      have hbidirectional :
          bidirectional? (List.replicate (extra + 3) '~' ++ rest) = none := rfl
      have hdotted : dotted? (List.replicate (extra + 3) '~' ++ rest) = none :=
        rfl
      have hsolid : solid? (List.replicate (extra + 3) '~' ++ rest) = none := rfl
      have hthick : thick? (List.replicate (extra + 3) '~' ++ rest) = none := rfl
      rw [plainConnector?, hbidirectional, hdotted, hsolid, hthick, invisible?,
        run?_replicate (hrest.ne '~' (by decide)), if_pos (by omega)]
      rfl

/-! ### Links -/

/-- A label in quotes between bars, with the filler in front of it. -/
structure BarLabel where
  margin : List Char
  inside : List Char
  margin_isFiller : ∀ c ∈ margin, isFiller c = true
  not_mem_inside : '|' ∉ inside

namespace BarLabel

variable (label : BarLabel)

def text : List Char :=
  label.margin ++ '|' :: '"' :: (escape label.inside ++ ['"', '|'])

/-- The label as it is shown.  An empty one is none. -/
def shown? : Option String :=
  let shown := Label.normalize (escape label.inside) true
  if shown.isEmpty then none else some (String.ofList shown)

theorem barText?_text (rest : List Char) :
    barText? ((label.text ++ rest).dropWhile isFiller) =
      some ('"' :: (escape label.inside ++ ['"']), rest) := by
  have hmargin : (label.text ++ rest).dropWhile isFiller =
      '|' :: ('"' :: (escape label.inside ++ ['"']) ++ (['|'] ++ rest)) := by
    simp [text, List.dropWhile_append_of_pos label.margin_isFiller, isFiller,
      isBlank]
  have hbar : ¬ ['|'] <:+: '"' :: (escape label.inside ++ ['"']) := by
    intro hinside
    have hmem : '|' ∈ '"' :: (escape label.inside ++ ['"']) :=
      hinside.subset (by simp)
    have hescape : '|' ∈ escape label.inside := by simpa using hmem
    rcases Sanitize.mem_escape hescape with hmem | hslash
    · exact label.not_mem_inside hmem
    · exact absurd hslash (by decide)
  rw [hmargin, barText?, after?_singleton, Option.bind_some,
    cut?_of_isUnbordered (by decide) hbar]

theorem edgeLabel?_quoted :
    edgeLabel? ('"' :: (escape label.inside ++ ['"'])) = label.shown? := by
  have htrimmed : IsTrimmed ('"' :: (escape label.inside ++ ['"'])) := by
    have hquote : isWhiteSpace '"' = false := by decide
    constructor
    · simpa using hquote
    · rw [← List.cons_append, List.getLast?_concat]
      simpa using hquote
  have hunquoted : unquoted? ('"' :: (escape label.inside ++ ['"'])) =
      some (escape label.inside) := by
    rw [unquoted?, after?_singleton, Option.bind_some, beforeFinal?_concat]
  rw [edgeLabel?, htrimmed.trim_eq]
  simp only [hunquoted]
  rfl

theorem endsConnector (rest : List Char) : EndsConnector (label.text ++ rest) := by
  intro c hc
  cases hmargin : label.margin with
  | nil =>
      rw [text, hmargin] at hc
      exact .inr (Option.some.inj hc).symm
  | cons d margin =>
      rw [text, hmargin] at hc
      have hd := label.margin_isFiller d (by rw [hmargin]; simp)
      rw [Option.some.inj hc] at hd
      exact .inl hd

end BarLabel

theorem connector?_spelling (connector : Connector) (extra : ℕ)
    {rest : List Char} (hrest : EndsConnector rest) :
    connector? (connector.spelling extra ++ rest) =
      some (connector, none, rest) := by
  rw [connector?, plainConnector?_spelling connector extra hrest]

theorem link?_labelled (connector : Connector) (extra : ℕ) (label : BarLabel)
    (rest : List Char) :
    link? (connector.spelling extra ++ (label.text ++ rest)) =
      some (⟨connector, label.shown?⟩, rest) := by
  rw [link?, connector?_spelling connector extra (label.endsConnector rest),
    Option.map_some]
  simp only [label.barText?_text rest, label.edgeLabel?_quoted]

theorem link?_unlabelled (connector : Connector) (extra : ℕ)
    {rest : List Char} (hrest : EndsConnector rest)
    (hbar : barText? (rest.dropWhile isFiller) = none) :
    link? (connector.spelling extra ++ rest) =
      some (⟨connector, none⟩, rest) := by
  rw [link?, connector?_spelling connector extra hrest, Option.map_some]
  simp only [hbar]
  rfl

end Grammar

end Flowchart
