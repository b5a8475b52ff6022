import Flowchart.Proofs.QuotedLabels
import Flowchart.Proofs.Sanitizing

/-!
# Chains with quoted labels

Where the labels that get their quotes are labels of nodes, a chain keeps its
meaning.  Which these are is a matter of the grammar: the chain is followed node
by node, and every label is taken at the place where the grammar reads it.
-/

namespace Flowchart.Grammar

open Text

/-! ### Chains -/

/-- The name of a style class and what stands behind it up to the next node,
whatever that node is. -/
structure IsGap (style gap : List Char) (separator : Option Link) : Prop where
  style : ∀ rest, endsId rest = false →
    skipClass (style ++ (gap ++ rest)) = gap ++ rest
  separator : ∀ rest, endsId rest = false →
    separator? (gap ++ rest) = some (separator, rest)

/-- A node and what stands behind it up to the next node, whatever that node
is. -/
structure IsLead (node gap : List Char) (mention : Mention)
    (separator : Option Link) : Prop where
  node : ∀ rest, endsId rest = false →
    mention? 0 (node ++ (gap ++ rest)) = some (mention, gap ++ rest)
  separator : ∀ rest, endsId rest = false →
    separator? (gap ++ rest) = some (separator, rest)

theorem eq_of_isFiller {c : Char} (h : isFiller c = true) :
    c = ' ' ∨ c = '\t' ∨ c = '\r' ∨ c = '\n' := by
  unfold isFiller isBlank at h
  simp only [Bool.or_eq_true, beq_iff_eq] at h
  tauto

theorem isIdChar_of_isFiller {c : Char} (h : isFiller c = true) :
    isIdChar c = false := by
  rcases eq_of_isFiller h with rfl | rfl | rfl | rfl <;> decide

theorem dropWhile_isFiller_of_start {rest : List Char}
    (h : endsId rest = false) : rest.dropWhile isFiller = rest := by
  cases rest with
  | nil => rfl
  | cons c rest =>
      have hid : isIdChar c = true := by simpa [endsId] using h
      rw [List.dropWhile_cons_of_neg]
      intro hc
      rw [isIdChar_of_isFiller hc] at hid
      exact absurd hid (by decide)

theorem barText?_of_start {rest : List Char} (h : endsId rest = false) :
    barText? rest = none := by
  have hnone : after? ['|'] rest = none := by
    rw [after?_eq_none_iff]
    rintro ⟨more, rfl⟩
    have hends : endsId (['|'] ++ more) = true := rfl
    rw [hends] at h
    exact absurd h (by simp)
  rw [barText?, hnone, Option.bind_none]

theorem isLead_arrow {name : List Char} (h : IsName name) :
    IsLead name " --> ".toList ⟨String.ofList name, none, Span.nowhere⟩
      (some ⟨.arrow, none⟩) := by
  constructor
  · intro rest _
    have hid : id? (name ++ (" --> ".toList ++ rest)) =
        some (name, " --> ".toList ++ rest) :=
      id?_append h rfl (by simp)
    have hnone : definition? (" --> ".toList ++ rest) = none := rfl
    exact mention?_of_none hid hnone
  · intro rest hstart
    have hfiller : (' ' :: rest).dropWhile isFiller = rest :=
      dropWhile_isFiller_of_start hstart
    have hgap : (" --> ".toList ++ rest).dropWhile isFiller =
        "--> ".toList ++ rest := rfl
    have hand : after? ['&'] ("--> ".toList ++ rest) = none := rfl
    have hconnector : connector? ("--> ".toList ++ rest) =
        some (.arrow, none, ' ' :: rest) := rfl
    have hlink : link? ("--> ".toList ++ rest) =
        some (⟨.arrow, none⟩, ' ' :: rest) := by
      rw [link?, hconnector, Option.map_some]
      simp only [hfiller, barText?_of_start hstart]
      rfl
    rw [separator?, hgap]
    simp only [hand, hlink, Option.map_some, hfiller]

/-- The second text is the first one with quotes around some of the labels of
its nodes.  The nodes up to the last one of these are told apart. -/
inductive QuotedChain : List Char → List Char → Prop where
  | same (text : List Char) : QuotedChain text text
  | last {name body : List Char} (hname : IsName name)
      (hbody : IsLabelBody body) (rest : List Char) :
      QuotedChain (name ++ '[' :: (body ++ ']' :: rest))
        (name ++ (Sanitize.quotedLabel body ++ rest))
  | label {name body style gap rest out : List Char}
      {separator : Option Link} (hname : IsName name)
      (hbody : IsLabelBody body) (hgap : IsGap style gap separator)
      (hstart : endsId rest = false) (hrest : QuotedChain rest out) :
      QuotedChain (name ++ '[' :: (body ++ ']' :: (style ++ (gap ++ rest))))
        (name ++ (Sanitize.quotedLabel body ++ (style ++ (gap ++ out))))
  | node {lead gap rest out : List Char} {mention : Mention}
      {separator : Option Link} (hlead : IsLead lead gap mention separator)
      (hstart : endsId rest = false) (hrest : QuotedChain rest out) :
      QuotedChain (lead ++ (gap ++ rest)) (lead ++ (gap ++ out))

theorem mention?_bare {name body : List Char} (hname : IsName name)
    (hbody : IsLabelBody body) (rest : List Char) :
    mention? 0 (name ++ '[' :: (body ++ ']' :: rest)) =
      some (⟨String.ofList name,
        some ⟨.rectangle, String.ofList (Label.normalize body false)⟩,
        Span.nowhere⟩, skipClass rest) :=
  mention?_of_definition? (id?_bracket hname _) (definition?_bare hbody rest)

theorem mention?_quoted {name body : List Char} (hname : IsName name)
    (hbody : IsLabelBody body) (rest : List Char) :
    mention? 0 (name ++ (Sanitize.quotedLabel body ++ rest)) =
      some (⟨String.ofList name,
        some ⟨.rectangle, String.ofList (Label.normalize body false)⟩,
        Span.nowhere⟩, skipClass rest) :=
  mention?_of_definition? (id?_bracket hname _)
    (definition?_quoted hbody.line rest)

/-- What counts of a chain: its nodes and links, and whether there is anything
else behind them. -/
def Reading.content (reading : Reading) :
    List Mention × List (Link × List Mention) × Bool :=
  (reading.head, reading.links, isRest reading.rest)

theorem Reading.content_cons (mention : Mention) (separator : Option Link)
    {reading other : Reading} (h : reading.content = other.content) :
    (reading.cons mention separator).content =
      (other.cons mention separator).content := by
  simp only [content, Prod.mk.injEq] at h
  obtain ⟨hhead, hlinks, hrest⟩ := h
  cases separator <;> simp [cons, content, hhead, hlinks, hrest]

namespace QuotedChain

variable {text out : List Char}

theorem agreeToBracket (h : QuotedChain text out) :
    Sanitize.AgreeToBracket text out := by
  induction h with
  | same text => exact .same text
  | last hname hbody rest => exact .bracket _ _ _
  | label hname hbody hgap hstart hrest ih => exact .bracket _ _ _
  | node hlead hstart hrest ih =>
      exact (ih.append_left _).append_left _

theorem endsId_eq (h : QuotedChain text out) : endsId out = endsId text := by
  cases h.agreeToBracket with
  | same => rfl
  | bracket start rest more => cases start <;> rfl

theorem content_cons_eq {rest : List Char} {gap : List Char} {mention : Mention}
    {separator : Option Link} {rest' : List Char}
    (hrest : (reading? rest).map Reading.content =
      (reading? rest').map Reading.content) (hstart : endsId rest = false)
    (hmention : mention? 0 text = some (mention, gap ++ rest))
    (hseparator : separator? (gap ++ rest) = some (separator, rest))
    (hmention' : mention? 0 out = some (mention, gap ++ rest'))
    (hseparator' : separator? (gap ++ rest') = some (separator, rest')) :
    (reading? text).map Reading.content = (reading? out).map Reading.content := by
  obtain ⟨reading, hreading⟩ :=
    Option.isSome_iff_exists.mp (isSome_reading? hstart)
  rw [hreading, Option.map_some] at hrest
  obtain ⟨reading', hreading', hcontent⟩ :=
    Option.map_eq_some_iff.mp hrest.symm
  rw [reading?_cons hmention hseparator hreading,
    reading?_cons hmention' hseparator' hreading', Option.map_some,
    Option.map_some, Reading.content_cons mention separator hcontent.symm]

/-- A chain is read alike with and without the quotes. -/
theorem map_content_reading? (h : QuotedChain text out) :
    (reading? text).map Reading.content = (reading? out).map Reading.content := by
  -- By induction on the nodes up to the last label: what is read behind a node
  -- does not depend on what the node is.
  induction h with
  | same text => rfl
  | last hname hbody rest =>
      rw [reading?_congr ((mention?_bare hname hbody rest).trans
        (mention?_quoted hname hbody rest).symm)]
  | @label name body style gap rest out separator hname hbody hgap hstart
      hrest ih =>
      have hout := hrest.endsId_eq.trans hstart
      have hmention := mention?_bare hname hbody (style ++ (gap ++ rest))
      have hmention' := mention?_quoted hname hbody (style ++ (gap ++ out))
      rw [hgap.style rest hstart] at hmention
      rw [hgap.style out hout] at hmention'
      exact content_cons_eq ih hstart hmention (hgap.separator rest hstart)
        hmention' (hgap.separator out hout)
  | node hlead hstart hrest ih =>
      have hout := hrest.endsId_eq.trans hstart
      exact content_cons_eq ih hstart (hlead.node _ hstart)
        (hlead.separator _ hstart) (hlead.node _ hout) (hlead.separator _ hout)

end QuotedChain

theorem Reading.statement?_congr {reading other : Reading}
    (h : reading.content = other.content) :
    reading.statement? = other.statement? := by
  simp only [content, Prod.mk.injEq] at h
  obtain ⟨hhead, hlinks, hrest⟩ := h
  simp only [statement?, hhead, hlinks, hrest]

theorem bind_statement?_congr {first second : Option Reading}
    (h : first.map Reading.content = second.map Reading.content) :
    first.bind Reading.statement? = second.bind Reading.statement? := by
  cases first with
  | none =>
      have hnone : second = none := by simpa using h.symm
      rw [hnone]
  | some reading =>
      obtain ⟨other, rfl, hcontent⟩ := Option.map_eq_some_iff.mp h.symm
      exact Reading.statement?_congr hcontent.symm

/-! ### Statements of other forms -/

theorem isRest_eq_false {text : List Char} {c : Char} (hmem : c ∈ text)
    (hc : isFiller c = false) : isRest text = false := by
  rw [Bool.eq_false_iff]
  intro hrest
  exact absurd (hc.symm.trans (List.all_eq_true.mp hrest c hmem)) (by decide)

theorem isRest_of_mem {text : List Char} (h : '[' ∈ text) :
    isRest text = false :=
  isRest_eq_false h (by decide)

theorem mem_of_after? {pattern text rest : List Char} {c : Char}
    (h : after? pattern text = some rest) (hc : c ∉ pattern) (hmem : c ∈ text) :
    c ∈ rest := by
  rw [after?_eq_some_iff.mp h, List.mem_append] at hmem
  exact hmem.resolve_left hc

theorem closeGroup?_of_mem {text : List Char} (h : '[' ∈ text) :
    closeGroup? text = none := by
  unfold closeGroup? whole?
  cases hend : after? "end".toList text with
  | none => rfl
  | some rest =>
      have hrest := isRest_of_mem (mem_of_after? hend (by decide) h)
      simp [hrest]

theorem mem_of_afterBlanks? {text rest : List Char}
    (h : afterBlanks? text = some rest) (hmem : '[' ∈ text) : '[' ∈ rest := by
  cases text with
  | nil => exact absurd hmem (by simp)
  | cons c text =>
      unfold afterBlanks? at h
      simp only at h
      split at h
      next hblank =>
        have hc : '[' ≠ c := by
          intro hc
          rw [← hc] at hblank
          exact absurd hblank (by decide)
        have htext := (List.mem_cons.mp hmem).resolve_left hc
        rw [← List.takeWhile_append_dropWhile (p := isBlank) (l := text),
          List.mem_append] at htext
        rw [← Option.some.inj h]
        apply htext.resolve_left
        intro htake
        exact absurd (List.mem_takeWhile_imp htake) (by decide)
      next => exact absurd h (by simp)

theorem direction?_of_mem {text : List Char} (h : '[' ∈ text) :
    direction? text = none := by
  unfold direction?
  cases hword : (after? "direction".toList text).bind afterBlanks? with
  | none => rfl
  | some rest =>
      obtain ⟨behind, hbehind, hblanks⟩ := Option.bind_eq_some_iff.mp hword
      have hmem :=
        mem_of_afterBlanks? hblanks (mem_of_after? hbehind (by decide) h)
      rw [Option.bind_some]
      split
      next first second rest =>
        split
        next hrest =>
          have hnot : '[' ∉ rest := by
            intro hin
            rw [isRest_of_mem hin] at hrest
            exact absurd hrest (by simp)
          simp only [List.mem_cons, hnot, or_false] at hmem
          rcases hmem with hmem | hmem <;> subst hmem <;>
            simp [Direction.ofKeyword?]
        next => rfl
      next => rfl

/-- Whether a text opens a group is settled in front of any bracket. -/
theorem isSome_openGroup?_of_agree {text out : List Char}
    (h : Sanitize.AgreeToBracket text out) :
    (openGroup? out).isSome = (openGroup? text).isSome := by
  cases h with
  | same => rfl
  | bracket start rest more =>
      unfold openGroup?
      by_cases hword : "subgraph".toList <+: start
      · obtain ⟨inner, rfl⟩ := hword
        simp only [List.append_assoc, after?_append]
        cases inner with
        | nil => rfl
        | cons c inner =>
            simp only [List.cons_append]
            split <;> rfl
      · -- The word does not reach over a bracket.
        have hnone : ∀ rest, after? "subgraph".toList (start ++ '[' :: rest) =
            none := by
          intro rest
          rw [after?_eq_none_iff]
          intro hprefix
          rcases prefix_append_cases hprefix with
            hstart | ⟨word, hpattern, hne, hbracket⟩
          · exact hword hstart
          · cases word with
            | nil => exact hne rfl
            | cons c word =>
                have hc : c = '[' := (List.cons_prefix_cons.mp hbracket).1
                have hmem : '[' ∈ "subgraph".toList := by
                  rw [hpattern, hc]
                  simp
                exact absurd hmem (by decide)
        rw [hnone, hnone]

/-! ### Diagram headers -/

theorem opens_eq {text : List Char} (h : '\n' ∉ text) :
    Keyword.opens text = Keyword.opensLine (trimStart text) := by
  have hlines : lines (trimStart text) = [trimStart text] :=
    List.splitOn_eq_singleton fun hmem =>
      h ((List.dropWhile_sublist _).subset hmem)
  have hblank : (trimStart text).takeWhile isBlank = [] := by
    have hhead := List.head?_dropWhile_not isWhiteSpace text
    cases hstart : trimStart text with
    | nil => rfl
    | cons c rest =>
        rw [trimStart] at hstart
        rw [hstart] at hhead
        rw [List.takeWhile_cons_of_neg]
        intro hc
        simp [isWhiteSpace_of_isBlank hc] at hhead
  unfold Keyword.opens Keyword.first? Keyword.occurrences
  rw [hlines, Keyword.inLines, Keyword.inLine?, hblank, Keyword.opensLine]
  cases Keyword.opening? ((trimStart text).dropWhile isBlank) <;> rfl

/-- What counts of a statement: what it does, and which direction it asks for
where it comes first. -/
def meaning (text : List Char) : Option Statement × Option Direction :=
  (effect? text, headerDirection? text)

theorem headerDirection?_of_not_opens {text : List Char}
    (h : Keyword.opens text = false) : headerDirection? text = none := by
  simp [headerDirection?, h]

theorem effect?_of_openGroup?_eq_none {text : List Char}
    (h : openGroup? text = none) :
    effect? text =
      ((closeGroup? text).map (fun _ => Statement.closeGroup) <|>
        (direction? text).map Statement.direction <|>
        (reading? text).bind Reading.statement?) := by
  rw [effect?, h, reading?_statement?]
  rfl

theorem QuotedChain.effect?_eq {text out : List Char} (h : QuotedChain text out)
    (hgroup : openGroup? text = none) : effect? out = effect? text := by
  have hagree := h.agreeToBracket
  have hgroup' : openGroup? out = none := by
    have hsome := isSome_openGroup?_of_agree hagree
    rwa [hgroup, Option.isSome_none, Option.isSome_eq_false_iff,
      Option.isNone_iff_eq_none] at hsome
  have hreading := bind_statement?_congr h.map_content_reading?
  rw [effect?_of_openGroup?_eq_none hgroup, effect?_of_openGroup?_eq_none hgroup']
  cases hagree with
  | same => rfl
  | bracket start rest more =>
      rw [closeGroup?_of_mem (by simp), closeGroup?_of_mem (by simp),
        direction?_of_mem (by simp), direction?_of_mem (by simp), hreading]

theorem trimStart_agree {text out : List Char}
    (h : Sanitize.AgreeToBracket text out) :
    Sanitize.AgreeToBracket (trimStart text) (trimStart out) := by
  cases h with
  | same => exact .same _
  | bracket start rest more =>
      have hbracket : ∀ rest, trimStart (start ++ '[' :: rest) =
          start.dropWhile isWhiteSpace ++ '[' :: rest := by
        intro rest
        rw [trimStart, List.dropWhile_append]
        split
        next hempty =>
          rw [List.isEmpty_iff.mp hempty]
          rfl
        next => rfl
      rw [hbracket, hbracket]
      exact .bracket _ _ _

theorem opens_of_agree {text out : List Char}
    (h : Sanitize.AgreeToBracket text out) (htext : '\n' ∉ text)
    (hout : '\n' ∉ out) : Keyword.opens out = Keyword.opens text := by
  rw [opens_eq htext, opens_eq hout, (trimStart_agree h).opensLine_eq]

theorem not_mem_quotedLabel {body : List Char} (h : '\n' ∉ body) :
    '\n' ∉ Sanitize.quotedLabel body := by
  have hescape : '\n' ∉ escape body := by
    intro hmem
    rcases Sanitize.mem_escape hmem with hbody | hslash
    · exact h hbody
    · exact absurd hslash (by decide)
  simp [Sanitize.quotedLabel, hescape]

theorem QuotedChain.not_mem {text out : List Char} (h : QuotedChain text out)
    (htext : '\n' ∉ text) : '\n' ∉ out := by
  induction h with
  | same => exact htext
  | last hname hbody rest =>
      have hlabel := not_mem_quotedLabel hbody.line
      simp_all
  | label hname hbody hgap hstart hrest ih =>
      have hlabel := not_mem_quotedLabel hbody.line
      simp_all
  | node hlead hstart hrest ih => simp_all

/-- A chain means the same with and without the quotes, unless it looks like
something else. -/
theorem QuotedChain.meaning_eq {text out : List Char} (h : QuotedChain text out)
    (hgroup : openGroup? text = none) (hopens : Keyword.opens text = false)
    (hline : '\n' ∉ text) : meaning out = meaning text := by
  have hopens' := opens_of_agree h.agreeToBracket hline (h.not_mem hline)
  rw [meaning, meaning, h.effect?_eq hgroup,
    headerDirection?_of_not_opens hopens,
    headerDirection?_of_not_opens (hopens'.trans hopens)]

end Flowchart.Grammar
