import Flowchart.Proofs.WrittenChains

/-!
# Two ways to label a link

The label of a link stands inside the connector, as in `-- text -->`, or between
bars behind it, as in `-->|text|`.  The reader of a connector with a text inside
is asked only where no plain connector fits, and looks for the end of the text
by itself.  Both ways are read as the same statement for every text that holds
neither a bar nor the marks that end it inside the connector.
-/

namespace Flowchart

open Text

namespace Connector

/-- A text may stand inside the connector. -/
def takesText : Connector → Bool
  | .bidirectional | .invisible => false
  | _ => true

/-- The marks in front of a text inside the connector. -/
def textOpening : Connector → List Char
  | .dottedArrow | .dottedLine => ['-', '.']
  | .thickArrow | .thickLine => ['=', '=']
  | _ => ['-', '-']

/-- The marks that end a text inside the connector. -/
def textStop : Connector → List Char
  | .dottedArrow | .dottedLine => ['.', '-']
  | .thickArrow | .thickLine => ['=', '=']
  | _ => ['-', '-']

/-- What stands behind a text inside the connector.  A dotted edge ends with its
last dot, so that further dots in front of it would belong to the text. -/
def textClosing (connector : Connector) (extra : ℕ) : List Char :=
  match connector with
  | .dottedArrow => ['.', '-', '>']
  | .dottedLine => ['.', '-']
  | other => other.spelling extra

theorem textClosing_of_not_isDotted {connector : Connector} (extra : ℕ)
    (h : connector.isDotted = false) :
    connector.textClosing extra = connector.spelling extra := by
  cases connector with
  | dottedArrow | dottedLine => exact absurd h (by decide)
  | _ => rfl

/-- The connector with the text inside. -/
def aroundText (connector : Connector) (extra : ℕ) (label : List Char) :
    List Char :=
  connector.textOpening ++
    ' ' :: (label ++ ' ' :: connector.textClosing extra)

theorem exists_cons_aroundText (connector : Connector) (extra : ℕ)
    (label : List Char) :
    ∃ c marks, connector.aroundText extra label = c :: marks ∧
      c ∈ ['-', '<', '=', '~'] := by
  cases connector <;> exact ⟨_, _, rfl, by decide⟩

/-- The connector with the text between bars behind it. -/
def beforeBars (connector : Connector) (extra : ℕ) (label : List Char) :
    List Char :=
  connector.spelling extra ++ '|' :: (label ++ ['|'])

end Connector

/-! ### Where a text ends -/

namespace Text

/-- A pattern does not run on behind a character that it does not have. -/
theorem prefix_of_prefix_barrier {pattern rest : List Char} {barrier : Char}
    (hbarrier : barrier ∉ pattern) (before : List Char)
    (h : pattern <+: before ++ barrier :: rest) : pattern <+: before := by
  rcases prefix_append_cases h with hinside | ⟨more, hpattern, hne, hlap⟩
  · exact hinside
  · obtain ⟨c, others, rfl⟩ := List.exists_cons_of_ne_nil hne
    rw [hpattern, (List.cons_prefix_cons.mp hlap).1] at hbarrier
    exact absurd (List.mem_append_right before List.mem_cons_self) hbarrier

theorem cut?_of_barrier {pattern before : List Char} {barrier : Char}
    (hbarrier : barrier ∉ pattern) (hbefore : ¬ pattern <:+: before)
    (rest : List Char) :
    cut? pattern (before ++ barrier :: (pattern ++ rest)) =
      some (before ++ [barrier], rest) := by
  have hskip : ∀ start stretch, before = start ++ stretch → stretch ≠ [] →
      ¬ pattern <+: stretch ++ barrier :: (pattern ++ rest) := by
    rintro start stretch rfl - hoccurs
    exact hbefore (List.infix_append_of_infix_right
      (prefix_of_prefix_barrier hbarrier stretch hoccurs).isInfix)
  have hhead : after? pattern (barrier :: (pattern ++ rest)) = none := by
    rw [after?_eq_none_iff]
    intro hoccurs
    have hempty := prefix_of_prefix_barrier hbarrier [] hoccurs
    exact hbefore (hempty.isInfix.trans List.nil_infix)
  rw [cut?_append hskip, cut?, hhead, cut?_pattern]
  rfl

end Text

namespace Grammar

theorem before?_of_barriers {pattern label : List Char}
    (hblank : ' ' ∉ pattern) (hlabel : ¬ pattern <:+: label)
    (rest : List Char) :
    before? pattern (' ' :: (label ++ ' ' :: (pattern ++ rest))) =
      some (' ' :: (label ++ [' ']), pattern ++ rest) := by
  have hbefore : ¬ pattern <:+: ' ' :: label := by
    rw [List.infix_cons_iff, not_or]
    refine ⟨fun hoccurs => hlabel ?_, hlabel⟩
    have hempty := prefix_of_prefix_barrier hblank [] hoccurs
    exact hempty.isInfix.trans List.nil_infix
  have hcut := cut?_of_barrier hblank hbefore rest
  rw [List.cons_append, List.cons_append] at hcut
  rw [before?, hcut]
  rfl

/-! ### Connectors with a text inside -/

/-- What starts with two hyphens is left to the reader of solid edges. -/
theorem plainConnector?_hyphens (rest : List Char) :
    plainConnector? ('-' :: '-' :: rest) = solid? ('-' :: '-' :: rest) := by
  have hbidirectional : bidirectional? ('-' :: '-' :: rest) = none := rfl
  have hdotted : dotted? ('-' :: '-' :: rest) = none := rfl
  have hthick : thick? ('-' :: '-' :: rest) = none := rfl
  have hinvisible : invisible? ('-' :: '-' :: rest) = none := rfl
  rw [plainConnector?, hbidirectional, hdotted, hthick, hinvisible]
  cases solid? ('-' :: '-' :: rest) <;> rfl

theorem plainConnector?_equalsSigns (rest : List Char) :
    plainConnector? ('=' :: '=' :: rest) = thick? ('=' :: '=' :: rest) := by
  have hbidirectional : bidirectional? ('=' :: '=' :: rest) = none := rfl
  have hdotted : dotted? ('=' :: '=' :: rest) = none := rfl
  have hsolid : solid? ('=' :: '=' :: rest) = none := rfl
  have hinvisible : invisible? ('=' :: '=' :: rest) = none := rfl
  rw [plainConnector?, hbidirectional, hdotted, hsolid, hinvisible]
  cases thick? ('=' :: '=' :: rest) <;> rfl

theorem exists_textClosing_eq {connector : Connector}
    (htakes : connector.takesText = true) (extra : ℕ) :
    ∃ more, connector.textClosing extra = connector.textStop ++ more := by
  cases connector with
  | bidirectional | invisible => exact absurd htakes (by decide)
  | _ => rcases extra with _ | _ | extra <;> exact ⟨_, rfl⟩

theorem connector?_hyphens {connector : Connector}
    {text inner more rest : List Char}
    (hbefore : before? ['-', '-'] (' ' :: text) =
      some (inner, '-' :: '-' :: more))
    (hread : plainConnector? ('-' :: '-' :: more) = some (connector, rest)) :
    connector? ('-' :: '-' :: ' ' :: text) =
      some (connector, some inner, rest) := by
  have hplain : plainConnector? ('-' :: '-' :: ' ' :: text) = none :=
    plainConnector?_hyphens _
  rw [plainConnector?_hyphens] at hread
  have hopening : after? ['-', '-'] ('-' :: '-' :: ' ' :: text) =
      some (' ' :: text) := after?_append ['-', '-'] _
  simp [connector?, hplain, textConnector?, hopening, hbefore, hread]

theorem connector?_equalsSigns {connector : Connector}
    {text inner more rest : List Char}
    (hbefore : before? ['=', '='] (' ' :: text) =
      some (inner, '=' :: '=' :: more))
    (hread : plainConnector? ('=' :: '=' :: more) = some (connector, rest)) :
    connector? ('=' :: '=' :: ' ' :: text) =
      some (connector, some inner, rest) := by
  have hplain : plainConnector? ('=' :: '=' :: ' ' :: text) = none :=
    plainConnector?_equalsSigns _
  rw [plainConnector?_equalsSigns] at hread
  have hopening : after? ['=', '='] ('=' :: '=' :: ' ' :: text) =
      some (' ' :: text) := after?_append ['=', '='] _
  have hhyphens : after? ['-', '-'] ('=' :: '=' :: ' ' :: text) = none := rfl
  have hdots : after? ['-', '.'] ('=' :: '=' :: ' ' :: text) = none := rfl
  simp [connector?, hplain, textConnector?, hopening, hhyphens, hdots, hbefore,
    hread]

theorem connector?_dots {text inner : List Char} (more : List Char)
    (hbefore : before? ['.', '-'] (' ' :: text) =
      some (inner, '.' :: '-' :: more)) :
    connector? ('-' :: '.' :: ' ' :: text) =
      some ((dottedHead more).1, some inner, (dottedHead more).2) := by
  have hplain : plainConnector? ('-' :: '.' :: ' ' :: text) = none := rfl
  have hopening : after? ['-', '.'] ('-' :: '.' :: ' ' :: text) =
      some (' ' :: text) := after?_append ['-', '.'] _
  have hclosing : after? ['.', '-'] ('.' :: '-' :: more) = some more :=
    after?_append ['.', '-'] _
  have hhyphens : after? ['-', '-'] ('-' :: '.' :: ' ' :: text) = none := rfl
  simp [connector?, hplain, textConnector?, hopening, hhyphens, hbefore,
    hclosing]

/-- The closing marks are found behind the text and read as the rest of the
connector. -/
theorem connector?_aroundText {connector : Connector}
    (htakes : connector.takesText = true) (extra : ℕ) {label rest : List Char}
    (hstop : ¬ connector.textStop <:+: label) (hrest : EndsConnector rest) :
    connector? (connector.aroundText extra label ++ rest) =
      some (connector, some (' ' :: (label ++ [' '])), rest) := by
  have hblank : ' ' ∉ connector.textStop := by cases connector <;> decide
  have hbefore : ∀ more, before? connector.textStop
      (' ' :: (label ++ ' ' :: (connector.textStop ++ more))) =
        some (' ' :: (label ++ [' ']), connector.textStop ++ more) :=
    before?_of_barriers hblank hstop
  have hplain := plainConnector?_spelling connector extra hrest
  obtain ⟨more, hclosing⟩ := exists_textClosing_eq htakes extra
  have hshape : connector.aroundText extra label ++ rest =
      connector.textOpening ++
        ' ' :: (label ++ ' ' :: (connector.textStop ++ (more ++ rest))) := by
    simp [Connector.aroundText, hclosing]
  rw [hshape]
  cases connector with
  | arrow | line | circle | cross =>
      rw [← Connector.textClosing_of_not_isDotted extra rfl, hclosing,
        List.append_assoc] at hplain
      exact connector?_hyphens (hbefore _) hplain
  | thickArrow | thickLine =>
      rw [← Connector.textClosing_of_not_isDotted extra rfl, hclosing,
        List.append_assoc] at hplain
      exact connector?_equalsSigns (hbefore _) hplain
  | dottedArrow =>
      change ['.', '-'] ++ ['>'] = ['.', '-'] ++ more at hclosing
      obtain rfl := List.append_cancel_left hclosing
      exact connector?_dots ('>' :: rest) (hbefore _)
  | dottedLine =>
      change ['.', '-'] ++ [] = ['.', '-'] ++ more at hclosing
      obtain rfl := List.append_cancel_left hclosing
      have hread := connector?_dots rest (hbefore rest)
      rw [hrest.dottedHead_eq] at hread
      exact hread
  | bidirectional | invisible => exact absurd htakes (by decide)

/-! ### Links -/

theorem edgeLabel?_between_blanks (label : List Char) :
    edgeLabel? (' ' :: (label ++ [' '])) = edgeLabel? label := by
  have htrim : trim (' ' :: (label ++ [' '])) = trim label := by
    have hblank : ∀ c ∈ [' '], isWhiteSpace c = true :=
      List.forall_mem_singleton.mpr (by decide)
    rw [← trim_append_isWhiteSpace label hblank,
      ← trim_append_of_isWhiteSpace (label ++ [' ']) hblank]
    rfl
  rw [edgeLabel?, edgeLabel?, htrim]

theorem link?_aroundText {connector : Connector}
    (htakes : connector.takesText = true) (extra : ℕ) {label rest : List Char}
    (hstop : ¬ connector.textStop <:+: label) (hrest : EndsConnector rest)
    (hbar : barText? (rest.dropWhile isFiller) = none) :
    link? (connector.aroundText extra label ++ rest) =
      some (⟨connector, edgeLabel? label⟩, rest) := by
  rw [link?, connector?_aroundText htakes extra hstop hrest, Option.map_some]
  simp only [hbar, Option.bind_some, edgeLabel?_between_blanks]

theorem link?_beforeBars (connector : Connector) (extra : ℕ)
    {label : List Char} (hlabel : '|' ∉ label) (rest : List Char) :
    link? (connector.beforeBars extra label ++ rest) =
      some (⟨connector, edgeLabel? label⟩, rest) := by
  have hshape : connector.beforeBars extra label ++ rest =
      connector.spelling extra ++ '|' :: (label ++ (['|'] ++ rest)) := by
    simp [Connector.beforeBars]
  have hends : EndsConnector ('|' :: (label ++ (['|'] ++ rest))) := by
    rintro c ⟨rfl⟩
    exact .inr rfl
  have hbar :
      barText? (('|' :: (label ++ (['|'] ++ rest))).dropWhile isFiller) =
        some (label, rest) := by
    have hinside : ¬ ['|'] <:+: label := fun h => hlabel (h.subset (by simp))
    have hfirst : ('|' :: (label ++ (['|'] ++ rest))).dropWhile isFiller =
        '|' :: (label ++ (['|'] ++ rest)) :=
      List.dropWhile_cons_of_neg (by decide)
    rw [hfirst, barText?, after?_singleton, Option.bind_some,
      cut?_of_isUnbordered (by decide) hinside]
  rw [hshape, link?, connector?_spelling connector extra hends, Option.map_some]
  simp only [hbar]

/-! ### Statements of one link -/

/-- The text of a chain is the chain, unless its first word has another
meaning. -/
theorem statement?_of_reading? {text : List Char} {statement : Statement}
    {reading : Reading} (hopen : openGroup? text = none)
    (hclose : closeGroup? text = none) (hdirection : direction? text = none)
    (hreading : reading? text = some reading)
    (hstatement : reading.statement? = some statement) (offset : ℕ) :
    (statement? text offset).map Statement.unplaced = some statement := by
  have heffect : effect? text = some statement := by
    rw [effect?_of_openGroup?_eq_none hopen, hclose, hdirection, hreading,
      Option.bind_some, hstatement]
    rfl
  rw [← effect?_statement? text offset] at heffect
  obtain ⟨found, hfound, heffect⟩ := Option.bind_eq_some_iff.mp heffect
  have hgroup : ∀ header, statement ≠ .openGroup header := by
    rintro header rfl
    unfold Reading.statement? at hstatement
    split at hstatement
    · split at hstatement <;> cases hstatement
    · cases hstatement
  rw [hfound, Option.map_some, Statement.unplaced_eq heffect hgroup]

theorem openGroup?_name {name behind : List Char} (hname : IsName name)
    (hbehind : ContinuesId behind) (hkeyword : name ≠ "subgraph".toList) :
    openGroup? (name ++ behind) = none := by
  rw [openGroup?]
  cases hword : after? "subgraph".toList (name ++ behind) with
  | none => rfl
  | some rest =>
      obtain ⟨inner, hinner, rfl⟩ :=
        exists_of_after?_name (by decide) hbehind.endsId hword
      cases inner with
      | nil => exact absurd (by simpa using hinner) hkeyword
      | cons c inner =>
          have hfiller : isFiller c = false :=
            isFiller_of_mem_name hname (by rw [hinner]; simp)
          simp [hfiller]

theorem reading?_name {name : List Char} (hname : IsName name) :
    reading? name =
      some ⟨[⟨String.ofList name, none, Span.nowhere⟩], [], []⟩ := by
  have hid : id? (name ++ []) = some (name, []) :=
    id?_append hname rfl (by simp)
  have hmention := mention?_of_none hid rfl
  have hclass : skipClass [] = [] := rfl
  have hnodes : moreMentions 0 [] = ([], []) := moreMentions_of_none rfl
  have hlinks : moreLinks 0 [] = ([], []) := moreLinks_of_none rfl
  rw [List.append_nil, hclass] at hmention
  simp [reading?, mentions?, hmention, hnodes, hlinks]

/-- Two ids with a link between them. -/
def joined (source link target : List Char) : List Char :=
  source ++ ' ' :: (link ++ ' ' :: target)

section Joined

variable {source target : List Char} (hsource : IsName source)
  (htarget : IsName target)

include htarget

theorem endsId_name : endsId target = false := by
  obtain ⟨c, rest, rfl, hc⟩ := exists_cons_of_isName htarget
  simp [endsId, hc]

theorem separator?_link {c : Char} {marks : List Char}
    (hc : c ∈ ['-', '<', '=', '~']) {value : Link}
    (hlink : link? (c :: marks ++ ' ' :: target) =
      some (value, ' ' :: target)) :
    separator? (' ' :: (c :: marks ++ ' ' :: target)) =
      some (some value, target) := by
  have hplain : isFiller c = false ∧ c ≠ '&' := by
    have hmarks : ['-', '<', '=', '~'].all
        (fun mark => !isFiller mark && mark != '&') = true := by decide
    simpa using List.all_eq_true.mp hmarks c hc
  have hstart : (' ' :: (c :: marks ++ ' ' :: target)).dropWhile isFiller =
      c :: marks ++ ' ' :: target := by
    rw [List.dropWhile_cons_of_pos (by decide), List.cons_append,
      List.dropWhile_cons_of_neg (by simp [hplain.1])]
  have hand : after? ['&'] (c :: marks ++ ' ' :: target) = none := by
    rw [after?_eq_none_iff, List.cons_append, List.cons_prefix_cons]
    exact fun h => hplain.2 h.1.symm
  have hrest : (' ' :: target).dropWhile isFiller = target := by
    rw [List.dropWhile_cons_of_pos (by decide),
      dropWhile_isFiller_of_start (endsId_name htarget)]
  simp only [separator?, hstart, hand, hlink, Option.map_some, hrest]

include hsource

/-- Whatever the link is made up of, two ids with a link between them are a
chain. -/
theorem statement?_joined (hkeyword : source ≠ "subgraph".toList) {c : Char}
    {marks : List Char} (hc : c ∈ ['-', '<', '=', '~']) {value : Link}
    (hlink : link? (c :: marks ++ ' ' :: target) =
      some (value, ' ' :: target)) (offset : ℕ) :
    (statement? (joined source (c :: marks) target) offset).map
        Statement.unplaced =
      some (.chain ⟨[⟨String.ofList source, none, Span.nowhere⟩],
        [(value, [⟨String.ofList target, none, Span.nowhere⟩])]⟩) := by
  have hbehind : ContinuesId (' ' :: (c :: marks ++ ' ' :: target)) := by
    have hmark : c ∈ partMarks := by
      have hmarks : ['-', '<', '=', '~'] ⊆ partMarks := by decide
      exact hmarks hc
    exact .part [' '] _ c (List.forall_mem_singleton.mpr (by decide)) hmark
  have hends : EndsNode (' ' :: (c :: marks ++ ' ' :: target)) := by
    rintro d ⟨rfl⟩
    decide
  have hmention : mention? 0 (joined source (c :: marks) target) =
      some (⟨String.ofList source, none, Span.nowhere⟩,
        ' ' :: (c :: marks ++ [' ']) ++ target) := by
    have hid := id?_append hsource hends.endsId hends.head?_ne
    have hread := mention?_of_none hid hends.definition?_eq_none
    rw [hends.skipClass_eq] at hread
    simpa [joined] using hread
  have hreading := reading?_cons hmention
    (by simpa using separator?_link htarget hc hlink) (reading?_name htarget)
  have hopen := openGroup?_name hsource hbehind hkeyword
  have hclose := closeGroup?_name hsource hbehind fun h => by
    have hblank : ' ' ∈ "end".toList := by
      rw [← h]
      simp
    exact absurd hblank (by decide)
  have hdirection := direction?_name hsource hbehind
  exact statement?_of_reading? hopen hclose hdirection hreading rfl offset

/-- A text inside a connector and the same text between bars behind it label the
link alike, and both ways are read. -/
theorem statement?_aroundText_beforeBars {label : List Char}
    (hkeyword : source ≠ "subgraph".toList) (hlabel : '|' ∉ label)
    {connector : Connector} (htakes : connector.takesText = true)
    (hstop : ¬ connector.textStop <:+: label) (extra offset other : ℕ) :
    let read : Statement :=
      .chain ⟨[⟨String.ofList source, none, Span.nowhere⟩],
        [(⟨connector, edgeLabel? label⟩,
          [⟨String.ofList target, none, Span.nowhere⟩])]⟩
    (statement? (joined source (connector.aroundText extra label) target)
        offset).map Statement.unplaced = some read ∧
      (statement? (joined source (connector.beforeBars extra label) target)
        other).map Statement.unplaced = some read := by
  have hends : EndsConnector (' ' :: target) := by
    rintro c ⟨rfl⟩
    exact .inl (by decide)
  have hbar : barText? ((' ' :: target).dropWhile isFiller) = none := by
    rw [List.dropWhile_cons_of_pos (by decide),
      dropWhile_isFiller_of_start (endsId_name htarget)]
    exact barText?_of_start (endsId_name htarget)
  have haround := link?_aroundText htakes extra hstop hends hbar
  have hbefore := link?_beforeBars connector extra hlabel (' ' :: target)
  obtain ⟨first, marks, hmarks, hfirst⟩ :=
    connector.exists_cons_aroundText extra label
  obtain ⟨c, more, hspelling, hc⟩ := exists_cons_spelling connector extra
  have hmore : connector.beforeBars extra label =
      c :: (more ++ '|' :: (label ++ ['|'])) := by
    rw [Connector.beforeBars, hspelling, List.cons_append]
  rw [hmarks] at haround ⊢
  rw [hmore] at hbefore ⊢
  exact ⟨statement?_joined hsource htarget hkeyword hfirst haround offset,
    statement?_joined hsource htarget hkeyword hc hbefore other⟩

end Joined

/-- The label starts and ends with hyphens, and the heads could be ids. -/
theorem statement?_aroundText_beforeBars_hyphens :
    let read : Statement :=
      .chain ⟨[⟨"end", none, Span.nowhere⟩],
        [(⟨.circle, some "-> say \"o\" -"⟩, [⟨"x-1", none, Span.nowhere⟩])]⟩
    (statement? "end -- -> say \"o\" - ----o x-1".toList 3).map
        Statement.unplaced = some read ∧
      (statement? "end ----o|-> say \"o\" -| x-1".toList 8).map
        Statement.unplaced = some read := by
  have hlabel : edgeLabel? "-> say \"o\" -".toList = some "-> say \"o\" -" := by
    decide +kernel
  have hread := statement?_aroundText_beforeBars
    (rfl : IsName "end".toList) (rfl : IsName "x-1".toList) (by decide)
    (by decide : '|' ∉ "-> say \"o\" -".toList)
    (rfl : Connector.circle.takesText = true) (by decide) 2 3 8
  rw [hlabel] at hread
  exact hread

end Grammar

end Flowchart
