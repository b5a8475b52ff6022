import Flowchart.Proofs.Spellings

/-!
# Chains read back

A chain is written with its labels in quotes, an ampersand between two nodes of
a list and a connector between two lists.  The grammar reads from it the ids,
the shapes, the labels and the links that it was written for: every reader takes
up exactly the piece written for it, whatever stands behind, as long as filler
ends it.
-/

namespace Flowchart

/-- The statement without the places of its nodes. -/
def Statement.unplaced : Statement → Statement
  | .chain value => .chain value.unplaced
  | .nodes mentions => .nodes (mentions.map Mention.unplaced)
  | statement => statement

theorem Statement.unplaced_eq {statement effect : Statement}
    (h : statement.effect? = some effect)
    (hgroup : ∀ header, effect ≠ .openGroup header) :
    statement.unplaced = effect := by
  cases statement with
  | openGroup header => exact absurd (Option.some.inj h).symm (hgroup _)
  | unsupported keyword => exact absurd h (by simp [effect?])
  | closeGroup => exact Option.some.inj h
  | direction value => exact Option.some.inj h
  | chain value => exact Option.some.inj h
  | nodes mentions => exact Option.some.inj h

namespace Grammar

open Text

/-! ### Ids -/

/-- One or more id characters. -/
def IsIdRun (run : List Char) : Prop :=
  run ≠ [] ∧ ∀ c ∈ run, isIdChar c = true

theorem idTail_run {start : List Char} (h : ∀ c ∈ start, isIdChar c = true)
    (rest : List Char) :
    idTail (start ++ rest) = (start ++ (idTail rest).1, (idTail rest).2) := by
  induction start with
  | nil => rfl
  | cons c start ih =>
      have hc : isIdChar c = true := h c (by simp)
      rw [List.cons_append, idTail, hc, Bool.true_or, if_pos rfl,
        ih fun d hd => h d (List.mem_cons_of_mem c hd)]
      rfl

theorem endsId_run {run : List Char} (h : IsIdRun run) (rest : List Char) :
    endsId (run ++ rest) = false := by
  obtain ⟨hne, hall⟩ := h
  cases run with
  | nil => exact absurd rfl hne
  | cons c run => simp [endsId, hall c (by simp)]

theorem idTail_runs {runs : List (List Char)} (h : ∀ run ∈ runs, IsIdRun run) :
    idTail (runs.flatMap ('-' :: ·)) = (runs.flatMap ('-' :: ·), []) := by
  induction runs with
  | nil => rfl
  | cons run runs ih =>
      have hrun := h run (by simp)
      have htail := ih fun other hother => h other (List.mem_cons_of_mem run hother)
      rw [List.flatMap_cons, List.cons_append, idTail, endsId_run hrun,
        idTail_run hrun.2, htail]
      rfl

theorem exists_runs_of_idTail {text : List Char} (h : idTail text = (text, [])) :
    ∃ (start : List Char) (runs : List (List Char)),
      (∀ c ∈ start, isIdChar c = true) ∧ (∀ run ∈ runs, IsIdRun run) ∧
        text = start ++ runs.flatMap ('-' :: ·) := by
  induction text with
  | nil => exact ⟨[], [], by simp⟩
  | cons c rest ih =>
      unfold idTail at h
      split at h
      next hc =>
        simp only [Prod.mk.injEq, List.cons.injEq, true_and] at h
        obtain ⟨start, runs, hstart, hruns, htext⟩ := ih (Prod.ext h.1 h.2)
        by_cases hid : isIdChar c = true
        · refine ⟨c :: start, runs, ?_, hruns, by rw [htext, List.cons_append]⟩
          rw [List.forall_mem_cons]
          exact ⟨hid, hstart⟩
        · -- A hyphen starts the next run, which is not empty.
          have hmark : c = '-' ∧ endsId rest = false := by simpa [hid] using hc
          obtain ⟨rfl, hends⟩ := hmark
          have hne : start ≠ [] := by
            rintro rfl
            have htrue : endsId ([] ++ runs.flatMap ('-' :: ·)) = true := by
              cases runs <;> rfl
            rw [htext, htrue] at hends
            exact absurd hends (by simp)
          refine ⟨[], start :: runs, by simp, ?_, by rw [htext]; rfl⟩
          rw [List.forall_mem_cons]
          exact ⟨⟨hne, hstart⟩, hruns⟩
      next => exact absurd (Prod.mk.inj h).1 (by simp)

/-- Ids are runs of id characters with single hyphens between them. -/
theorem isName_iff {name : List Char} :
    IsName name ↔ ∃ (first : List Char) (runs : List (List Char)),
      IsIdRun first ∧ (∀ run ∈ runs, IsIdRun run) ∧
        name = first ++ runs.flatMap ('-' :: ·) := by
  constructor
  · intro h
    obtain ⟨c, rest, rfl, hc⟩ := exists_cons_of_isName h
    have htail : idTail (c :: rest) = (c :: rest, []) := by
      unfold IsName id? at h
      split at h
      next => exact absurd h (by simp)
      next => exact Option.some.inj h
    obtain ⟨start, runs, hstart, hruns, htext⟩ := exists_runs_of_idTail htail
    refine ⟨start, runs, ⟨?_, hstart⟩, hruns, htext⟩
    rintro rfl
    cases runs with
    | nil => exact absurd htext (by simp)
    | cons run runs =>
        rw [List.nil_append, List.flatMap_cons, List.cons_append,
          List.cons.injEq] at htext
        rw [htext.1] at hc
        exact absurd hc (by decide)
  · rintro ⟨first, runs, hfirst, hruns, rfl⟩
    rw [IsName, id?, endsId_run hfirst, if_neg (by simp), idTail_run hfirst.2,
      idTail_runs hruns]

/-! ### Nodes -/

/-- The delimiters that a shape is written with. -/
def Delimiter.written : Shape → Delimiter
  | .rectangle => ⟨['['], [']'], .rectangle⟩
  | .diamond => ⟨['{'], ['}'], .diamond⟩
  | .circle => ⟨['(', '('], [')', ')'], .circle⟩
  | .stadium => ⟨['(', '['], [']', ')'], .stadium⟩
  | .rounded => ⟨['('], [')'], .rounded⟩

/-- The shape and the label in quotes. -/
def definitionText (shape : Shape) (label : List Char) : List Char :=
  (Delimiter.written shape).opening ++
    '"' :: (escape label ++ '"' :: (Delimiter.written shape).closing)

/-- A node as it is written: an id, and a shape with a label if there is one. -/
structure WrittenNode where
  name : List Char
  label : Option (Shape × List Char)
  isName : IsName name

namespace WrittenNode

variable (node : WrittenNode)

def labelText : List Char :=
  match node.label with
  | none => []
  | some (shape, label) => definitionText shape label

def text : List Char :=
  node.name ++ node.labelText

/-- The node that is read. -/
def mention : Mention where
  id := String.ofList node.name
  definition := node.label.map fun (shape, label) =>
    ⟨shape, String.ofList (Label.normalize (escape label) true)⟩
  span := Span.nowhere

end WrittenNode

theorem Delimiter.read?_written (shape : Shape) (label rest : List Char) :
    (Delimiter.written shape).read? (definitionText shape label ++ rest) =
      some (⟨shape, String.ofList (Label.normalize (escape label) true)⟩,
        rest) := by
  have hopen : after? (Delimiter.written shape).opening
      (definitionText shape label ++ rest) =
      some ('"' :: (escape label ++
        '"' :: ((Delimiter.written shape).closing ++ rest))) := by
    rw [after?_eq_some_iff, definitionText]
    simp
  rw [Delimiter.read?, hopen, Option.bind_some]
  cases shape <;> exact congrArg _ (label?_escape (by decide) _ label rest)

/-- A label is read by the first delimiter whose opening fits. -/
theorem definition?_of_split {text : List Char} {delimiter : Delimiter}
    {earlier later : List Delimiter} {result : Definition × List Char}
    (hall : Delimiter.all = earlier ++ delimiter :: later)
    (hearlier : ∀ other ∈ earlier, after? other.opening text = none)
    (hread : delimiter.read? text = some result) :
    definition? text = some result := by
  have hnone : earlier.findSome? (·.read? text) = none := by
    rw [List.findSome?_eq_none_iff]
    intro other hother
    rw [Delimiter.read?, hearlier other hother]
    rfl
  rw [definition?, hall, List.findSome?_append, hnone, Option.none_or,
    List.findSome?_cons, hread]

/-- The delimiter whose opening fits is given by the number of delimiters before
it. -/
theorem definition?_of_read? {text : List Char} {delimiter : Delimiter}
    {result : Definition × List Char} (before : ℕ)
    (hdelimiter : Delimiter.all[before]? = some delimiter)
    (hbefore : ((Delimiter.all.take before).all fun other =>
      (after? other.opening text).isNone) = true)
    (hread : delimiter.read? text = some result) :
    definition? text = some result := by
  obtain ⟨hlt, hget⟩ := List.getElem?_eq_some_iff.mp hdelimiter
  have hsplit : Delimiter.all = Delimiter.all.take before ++
      delimiter :: Delimiter.all.drop (before + 1) := by
    rw [← hget, List.getElem_cons_drop, List.take_append_drop]
  apply definition?_of_split hsplit _ hread
  intro other hother
  rw [← Option.isNone_iff_eq_none]
  exact List.all_eq_true.mp hbefore other hother

theorem definition?_definitionText (shape : Shape) (label rest : List Char) :
    definition? (definitionText shape label ++ rest) =
      some (⟨shape, String.ofList (Label.normalize (escape label) true)⟩,
        rest) := by
  have hread := Delimiter.read?_written shape label rest
  cases shape with
  | rectangle => exact definition?_of_read? 6 rfl rfl hread
  | diamond => exact definition?_of_read? 8 rfl rfl hread
  | circle => exact definition?_of_read? 1 rfl rfl hread
  | stadium => exact definition?_of_read? 2 rfl rfl hread
  | rounded => exact definition?_of_read? 9 rfl rfl hread

/-- What may stand behind a node: nothing, or filler. -/
def EndsNode (behind : List Char) : Prop :=
  ∀ c ∈ behind.head?, isFiller c = true

namespace EndsNode

variable {behind : List Char}

theorem endsId (h : EndsNode behind) : endsId behind = true := by
  cases behind with
  | nil => rfl
  | cons c rest => simp [Grammar.endsId, isIdChar_of_isFiller (h c rfl)]

theorem head?_ne (h : EndsNode behind) : behind.head? ≠ some '-' := by
  intro hhead
  exact absurd (h '-' hhead) (by decide)

theorem definition?_eq_none (h : EndsNode behind) : definition? behind = none := by
  cases behind with
  | nil => rfl
  | cons c rest =>
      rcases eq_of_isFiller (h c rfl) with rfl | rfl | rfl | rfl <;> rfl

theorem skipClass_eq (h : EndsNode behind) : skipClass behind = behind := by
  cases behind with
  | nil => rfl
  | cons c rest =>
      rcases eq_of_isFiller (h c rfl) with rfl | rfl | rfl | rfl <;> rfl

end EndsNode

theorem WrittenNode.mention?_text (node : WrittenNode) (behind : List Char)
    (h : EndsNode behind) :
    mention? 0 (node.text ++ behind) = some (node.mention, behind) := by
  obtain ⟨name, label, hname⟩ := node
  cases label with
  | none =>
      have hid : id? (name ++ ([] ++ behind)) = some (name, behind) :=
        id?_append hname h.endsId h.head?_ne
      rw [text, List.append_assoc]
      have hmention := mention?_of_none hid h.definition?_eq_none
      rw [h.skipClass_eq] at hmention
      exact hmention
  | some parts =>
      obtain ⟨shape, label⟩ := parts
      have hid : id? (name ++ (definitionText shape label ++ behind)) =
          some (name, definitionText shape label ++ behind) := by
        apply id?_append hname
        · cases shape <;> rfl
        · cases shape <;> simp [definitionText, Delimiter.written]
      have hmention := mention?_of_definition? hid
        (definition?_definitionText shape label behind)
      rw [h.skipClass_eq] at hmention
      rw [text, List.append_assoc]
      exact hmention

theorem WrittenNode.endsId_text (node : WrittenNode) (behind : List Char) :
    endsId (node.text ++ behind) = false := by
  obtain ⟨c, rest, hname, hc⟩ := exists_cons_of_isName node.isName
  rw [text, hname]
  simp [endsId, hc]

/-! ### Links -/

/-- A link as it is written.  Behind a label there may be no filler. -/
structure WrittenLink where
  before : List Char
  connector : Connector
  extra : ℕ
  label : Option BarLabel
  behind : List Char
  before_ne_nil : before ≠ []
  before_isFiller : ∀ c ∈ before, isFiller c = true
  behind_ne_nil : label = none → behind ≠ []
  behind_isFiller : ∀ c ∈ behind, isFiller c = true

namespace WrittenLink

variable (link : WrittenLink)

def labelText : List Char :=
  match link.label with
  | none => []
  | some label => label.text

def text : List Char :=
  link.before ++ (link.connector.spelling link.extra ++
    (link.labelText ++ link.behind))

/-- The link that is read. -/
def value : Link :=
  ⟨link.connector, link.label.bind BarLabel.shown?⟩

theorem endsNode (rest : List Char) : EndsNode (link.text ++ rest) := by
  intro c hc
  obtain ⟨d, filler, hbefore⟩ := List.exists_cons_of_ne_nil link.before_ne_nil
  rw [text, hbefore] at hc
  rw [← Option.some.inj hc]
  exact link.before_isFiller d (by rw [hbefore]; simp)

theorem dropWhile_behind {rest : List Char} (hstart : endsId rest = false) :
    (link.behind ++ rest).dropWhile isFiller = rest := by
  rw [List.dropWhile_append_of_pos link.behind_isFiller,
    dropWhile_isFiller_of_start hstart]

theorem link?_text {rest : List Char} (hstart : endsId rest = false) :
    link? (link.connector.spelling link.extra ++
        (link.labelText ++ (link.behind ++ rest))) =
      some (link.value, link.behind ++ rest) := by
  cases hlabel : link.label with
  | none =>
      obtain ⟨c, filler, hc⟩ := List.exists_cons_of_ne_nil (link.behind_ne_nil hlabel)
      have hends : EndsConnector (link.behind ++ rest) := by
        intro d hd
        rw [hc] at hd
        rw [← Option.some.inj hd]
        exact .inl (link.behind_isFiller c (by rw [hc]; simp))
      have hbar : barText? ((link.behind ++ rest).dropWhile isFiller) = none := by
        rw [link.dropWhile_behind hstart]
        exact barText?_of_start hstart
      simp only [labelText, value, hlabel]
      exact link?_unlabelled link.connector link.extra hends hbar
  | some label =>
      simp only [labelText, value, hlabel]
      exact link?_labelled link.connector link.extra label (link.behind ++ rest)

theorem separator?_text {rest : List Char} (hstart : endsId rest = false) :
    separator? (link.text ++ rest) = some (some link.value, rest) := by
  obtain ⟨c, marks, hspelling, hc⟩ :=
    exists_cons_spelling link.connector link.extra
  have hmarks : ['-', '<', '=', '~'].all
      (fun mark => !isFiller mark && mark != '&') = true := by decide
  have hplain : isFiller c = false ∧ c ≠ '&' := by
    simpa using List.all_eq_true.mp hmarks c hc
  have hlink := link.link?_text hstart
  have hbehind := link.dropWhile_behind hstart
  have hshape : (link.text ++ rest).dropWhile isFiller =
      link.connector.spelling link.extra ++
        (link.labelText ++ (link.behind ++ rest)) := by
    rw [text, List.append_assoc, List.append_assoc, List.append_assoc,
      List.dropWhile_append_of_pos link.before_isFiller, hspelling,
      List.cons_append, List.dropWhile_cons_of_neg (by simp [hplain.1])]
  have hand : after? ['&'] (link.connector.spelling link.extra ++
      (link.labelText ++ (link.behind ++ rest))) = none := by
    rw [after?_eq_none_iff, hspelling]
    intro hmark
    exact hplain.2 (List.cons_prefix_cons.mp hmark).1.symm
  rw [separator?, hshape]
  simp only [hand, hlink, Option.map_some, hbehind]

end WrittenLink

/-! ### Lists of nodes -/

/-- Nodes as they are written, at least one. -/
structure WrittenNodes where
  first : WrittenNode
  others : List WrittenNode

namespace WrittenNodes

def text (nodes : WrittenNodes) : List Char :=
  nodes.first.text ++ nodes.others.flatMap fun node => " & ".toList ++ node.text

def mentions (nodes : WrittenNodes) : List Mention :=
  nodes.first.mention :: nodes.others.map WrittenNode.mention

/-- The nodes are read one by one, whatever is read behind the last one. -/
theorem reading?_text (nodes : WrittenNodes) {behind : List Char}
    {links : List (Link × List Mention)}
    (hlast : ∀ node : WrittenNode, reading? (node.text ++ behind) =
      some ⟨[node.mention], links, []⟩) :
    reading? (nodes.text ++ behind) = some ⟨nodes.mentions, links, []⟩ := by
  obtain ⟨first, others⟩ := nodes
  induction others generalizing first with
  | nil => simpa [text, mentions] using hlast first
  | cons second others ih =>
      have hstart : endsId (text ⟨second, others⟩ ++ behind) = false := by
        rw [text, List.append_assoc]
        exact second.endsId_text _
      have hshape : text ⟨first, second :: others⟩ ++ behind =
          first.text ++ (" & ".toList ++ (text ⟨second, others⟩ ++ behind)) := by
        simp [text]
      have hends : EndsNode
          (" & ".toList ++ (text ⟨second, others⟩ ++ behind)) := by
        rintro c ⟨rfl⟩
        decide
      have hseparator : separator?
          (" & ".toList ++ (text ⟨second, others⟩ ++ behind)) =
          some (none, text ⟨second, others⟩ ++ behind) := by
        have hfiller := dropWhile_isFiller_of_start hstart
        exact congrArg (fun rest => some (none, rest)) hfiller
      rw [hshape, reading?_cons (first.mention?_text _ hends) hseparator
        (ih second)]
      rfl

end WrittenNodes

/-! ### Chains -/

/-- A chain as it is written, with or without links. -/
structure WrittenChain where
  head : WrittenNodes
  links : List (WrittenLink × WrittenNodes)

namespace WrittenChain

def text (chain : WrittenChain) : List Char :=
  chain.head.text ++
    chain.links.flatMap fun (link, nodes) => link.text ++ nodes.text

/-- The statement that is read.  Nodes without any link are no chain. -/
def statement (chain : WrittenChain) : Statement :=
  let links := chain.links.map fun (link, nodes) => (link.value, nodes.mentions)
  if links.isEmpty then .nodes chain.head.mentions
  else .chain ⟨chain.head.mentions, links⟩

theorem reading?_text (chain : WrittenChain) :
    reading? chain.text = some ⟨chain.head.mentions,
      chain.links.map fun (link, nodes) => (link.value, nodes.mentions), []⟩ := by
  obtain ⟨head, links⟩ := chain
  induction links generalizing head with
  | nil =>
      have hlast : ∀ node : WrittenNode, reading? (node.text ++ []) =
          some ⟨[node.mention], [], []⟩ := by
        intro node
        have hmention := node.mention?_text [] (by simp [EndsNode])
        rw [List.append_nil] at hmention ⊢
        have hnodes : moreMentions 0 [] = ([], []) := moreMentions_of_none rfl
        have hlinks : moreLinks 0 [] = ([], []) := moreLinks_of_none rfl
        simp [reading?, mentions?, hmention, hnodes, hlinks]
      have hnodes := head.reading?_text hlast
      simpa [text] using hnodes
  | cons next links ih =>
      obtain ⟨link, nodes⟩ := next
      have hstart : endsId (text ⟨nodes, links⟩) = false := by
        rw [text, WrittenNodes.text, List.append_assoc]
        exact nodes.first.endsId_text _
      have hlast : ∀ node : WrittenNode,
          reading? (node.text ++ (link.text ++ text ⟨nodes, links⟩)) =
            some ⟨[node.mention], (link.value, nodes.mentions) ::
              links.map fun (link, nodes) => (link.value, nodes.mentions),
              []⟩ := by
        intro node
        exact reading?_cons (node.mention?_text _ (link.endsNode _))
          (link.separator?_text hstart) (ih nodes)
      have hnodes := head.reading?_text hlast
      have hshape : text ⟨head, (link, nodes) :: links⟩ =
          head.text ++ (link.text ++ text ⟨nodes, links⟩) := by
        simp [text]
      rw [hshape]
      exact hnodes

end WrittenChain

/-! ### Keywords that are ids -/

theorem isClassChar_of_mem_name {name : List Char} (h : IsName name) {c : Char}
    (hc : c ∈ name) : isClassChar c = true := by
  have hid : (idTail name).1 = name := by
    unfold IsName id? at h
    split at h
    next => exact absurd h (by simp)
    next => rw [Option.some.inj h]
  exact (idTail_spec name).2 c (by rw [hid]; exact hc)

theorem isFiller_of_mem_name {name : List Char} (h : IsName name) {c : Char}
    (hc : c ∈ name) : isFiller c = false := by
  have hclass := isClassChar_of_mem_name h hc
  rw [Bool.eq_false_iff]
  intro hfiller
  rw [isClassChar, isIdChar_of_isFiller hfiller, Bool.false_or,
    beq_iff_eq] at hclass
  rw [hclass] at hfiller
  exact absurd hfiller (by decide)

/-- A keyword in front of a text that starts with an id is the beginning of this
id. -/
theorem exists_of_after?_name {word name behind rest : List Char}
    (hword : word.all isIdChar = true) (hends : endsId behind = true)
    (h : after? word (name ++ behind) = some rest) :
    ∃ inner, name = word ++ inner ∧ rest = inner ++ behind := by
  rcases List.append_eq_append_iff.mp (after?_eq_some_iff.mp h) with
    ⟨more, hmore, hbehind⟩ | ⟨inner, hname, hrest⟩
  · cases more with
    | nil =>
        refine ⟨[], ?_, ?_⟩
        · simpa using hmore.symm
        · simpa using hbehind.symm
    | cons c more =>
        have hc : isIdChar c = true :=
          List.all_eq_true.mp hword c (by rw [hmore]; simp)
        rw [hbehind] at hends
        simp [endsId, hc] at hends
  · exact ⟨inner, hname, hrest⟩

/-- Characters with which the label of a node, an ampersand or a connector
starts. -/
def partMarks : List Char :=
  ['[', '{', '(', '&', '-', '<', '=', '~']

theorem plain_of_mem_partMarks {c : Char} (h : c ∈ partMarks) :
    isFiller c = false ∧ isBlank c = false ∧ isIdChar c = false := by
  have hmarks : partMarks.all
      (fun mark => !isFiller mark && !isBlank mark && !isIdChar mark) = true := by
    decide
  simpa [and_assoc] using List.all_eq_true.mp hmarks c h

/-- What stands behind the first id of a chain: nothing, or a further part of
the chain with filler in front of it. -/
inductive ContinuesId : List Char → Prop where
  | nothing : ContinuesId []
  | part (filler rest : List Char) (c : Char)
      (hfiller : ∀ d ∈ filler, isFiller d = true) (hc : c ∈ partMarks) :
      ContinuesId (filler ++ c :: rest)

namespace ContinuesId

variable {behind : List Char}

theorem endsId (h : ContinuesId behind) : endsId behind = true := by
  cases h with
  | nothing => rfl
  | part filler rest c hfiller hc =>
      cases filler with
      | nil => simp [Grammar.endsId, (plain_of_mem_partMarks hc).2.2]
      | cons d filler =>
          simp [Grammar.endsId, isIdChar_of_isFiller (hfiller d (by simp))]

theorem head_afterBlanks? (h : ContinuesId behind) {rest : List Char}
    (hrest : afterBlanks? behind = some rest) :
    ∀ c ∈ rest.head?, isFiller c = true ∨ c ∈ partMarks := by
  cases h with
  | nothing => exact absurd hrest (by simp [afterBlanks?])
  | part filler more mark hfiller hmark =>
      have hplain := plain_of_mem_partMarks hmark
      cases filler with
      | nil => exact absurd hrest (by simp [afterBlanks?, hplain.2.1])
      | cons d filler =>
          rw [List.cons_append, afterBlanks?] at hrest
          split at hrest
          next =>
            intro c hc
            rw [← Option.some.inj hrest,
              head?_dropWhile_append filler hplain.2.1] at hc
            cases hhead : (filler.dropWhile isBlank).head? with
            | none =>
                rw [hhead] at hc
                exact .inr (Option.some.inj hc ▸ hmark)
            | some first =>
                have hmem : first ∈ filler := (List.dropWhile_sublist _).subset
                  (List.mem_of_head? hhead)
                rw [hhead] at hc
                rw [← Option.some.inj hc]
                exact .inl (hfiller first (List.mem_cons_of_mem d hmem))
          next => exact absurd hrest (by simp)

end ContinuesId

theorem ofKeyword?_eq_none {first : Char}
    (h : isFiller first = true ∨ first ∈ partMarks) (second : Char) :
    Direction.ofKeyword? [first, second] = none := by
  rcases h with hfiller | hmark
  · rcases eq_of_isFiller hfiller with rfl | rfl | rfl | rfl <;> rfl
  · simp only [partMarks, List.mem_cons, List.not_mem_nil, or_false] at hmark
    rcases hmark with rfl | rfl | rfl | rfl | rfl | rfl | rfl | rfl <;> rfl

section Keywords

variable {name behind : List Char}

theorem closeGroup?_name (hname : IsName name) (hbehind : ContinuesId behind)
    (h : name ++ behind ≠ "end".toList) : closeGroup? (name ++ behind) = none := by
  unfold closeGroup?
  cases hend : after? "end".toList (name ++ behind) with
  | none => rfl
  | some rest =>
      obtain ⟨inner, rfl, rfl⟩ :=
        exists_of_after?_name (by decide) hbehind.endsId hend
      have hrest : isRest (inner ++ behind) = false := by
        cases inner with
        | nil =>
            cases hbehind with
            | nothing => exact absurd rfl h
            | part filler rest c hfiller hc =>
                exact isRest_eq_false (by simp) (plain_of_mem_partMarks hc).1
        | cons c inner =>
            have hfiller : isFiller c = false :=
              isFiller_of_mem_name hname (by simp)
            exact isRest_eq_false (by simp) hfiller
      simp [whole?, hrest]

theorem direction?_name (hname : IsName name) (hbehind : ContinuesId behind) :
    direction? (name ++ behind) = none := by
  unfold direction?
  cases hword : after? "direction".toList (name ++ behind) with
  | none => rfl
  | some rest =>
      obtain ⟨inner, rfl, rfl⟩ :=
        exists_of_after?_name (by decide) hbehind.endsId hword
      rw [Option.bind_some]
      cases hblanks : afterBlanks? (inner ++ behind) with
      | none => rfl
      | some rest =>
          have hhead : ∀ c ∈ rest.head?, isFiller c = true ∨ c ∈ partMarks := by
            cases inner with
            | nil => exact hbehind.head_afterBlanks? hblanks
            | cons c inner =>
                have hblank : isBlank c = false := by
                  have hfiller : isFiller c = false :=
                    isFiller_of_mem_name hname (by simp)
                  simp_all [isFiller]
                exact absurd hblanks (by simp [afterBlanks?, hblank])
          rw [Option.bind_some]
          split
          next first second rest =>
            split
            next => exact ofKeyword?_eq_none (hhead first rfl) second
            next => rfl
          next => rfl

end Keywords

namespace WrittenChain

/-- What stands behind the first id. -/
def behindName (chain : WrittenChain) : List Char :=
  chain.head.first.labelText ++
    ((chain.head.others.flatMap fun node => " & ".toList ++ node.text) ++
      chain.links.flatMap fun (link, nodes) => link.text ++ nodes.text)

theorem text_eq (chain : WrittenChain) :
    chain.text = chain.head.first.name ++ chain.behindName := by
  simp [text, behindName, WrittenNodes.text, WrittenNode.text]

theorem exists_cons_definitionText (shape : Shape) (label : List Char) :
    ∃ c rest, definitionText shape label = c :: rest ∧ c ∈ partMarks := by
  cases shape <;> exact ⟨_, _, rfl, by decide⟩

theorem behindName_of_label {chain : WrittenChain} {shape : Shape}
    {label : List Char} (h : chain.head.first.label = some (shape, label)) :
    ∃ tail, chain.behindName = definitionText shape label ++ tail := by
  rw [behindName, WrittenNode.labelText, h]
  exact ⟨_, rfl⟩

theorem continuesId (chain : WrittenChain) : ContinuesId chain.behindName := by
  obtain ⟨⟨⟨name, label, hname⟩, others⟩, links⟩ := chain
  cases label with
  | some parts =>
      obtain ⟨c, rest, hshape, hc⟩ := exists_cons_definitionText parts.1 parts.2
      simp only [behindName, WrittenNode.labelText, hshape]
      exact .part [] _ c (by simp) hc
  | none =>
      cases others with
      | cons second others => exact .part [' '] _ '&' (by simp [isFiller, isBlank]) (by decide)
      | nil =>
          cases links with
          | nil => exact .nothing
          | cons next links =>
              obtain ⟨link, nodes⟩ := next
              obtain ⟨c, marks, hspelling, hc⟩ :=
                exists_cons_spelling link.connector link.extra
              have hmark : c ∈ partMarks :=
                List.mem_of_mem_drop (i := 4) hc
              have hpart := ContinuesId.part link.before (marks ++
                (link.labelText ++ (link.behind ++ (nodes.text ++
                  links.flatMap fun (link, nodes) => link.text ++ nodes.text))))
                c link.before_isFiller hmark
              simpa [behindName, WrittenNode.labelText, WrittenLink.text,
                hspelling] using hpart

theorem openGroup?_text (chain : WrittenChain)
    (hfirst : chain.head.first.label = none →
      chain.head.first.name ≠ "subgraph".toList) :
    openGroup? chain.text = none := by
  rw [text_eq, openGroup?]
  cases hword : after? "subgraph".toList
      (chain.head.first.name ++ chain.behindName) with
  | none => rfl
  | some rest =>
      obtain ⟨inner, hname, rfl⟩ :=
        exists_of_after?_name (by decide) chain.continuesId.endsId hword
      have hplain : ∃ c rest, inner ++ chain.behindName = c :: rest ∧
          isFiller c = false := by
        cases inner with
        | cons c inner =>
            refine ⟨c, inner ++ chain.behindName, rfl, ?_⟩
            exact isFiller_of_mem_name chain.head.first.isName
              (by rw [hname]; simp)
        | nil =>
            -- The id is the keyword, so that a label follows it at once.
            rw [List.append_nil] at hname
            cases hlabel : chain.head.first.label with
            | none => exact absurd hname (hfirst hlabel)
            | some parts =>
                obtain ⟨c, rest, hshape, hc⟩ :=
                  exists_cons_definitionText parts.1 parts.2
                obtain ⟨tail, htail⟩ := behindName_of_label hlabel
                refine ⟨c, rest ++ tail, ?_, (plain_of_mem_partMarks hc).1⟩
                rw [htail, hshape]
                rfl
      obtain ⟨c, rest, hrest, hfiller⟩ := hplain
      rw [hrest]
      simp [hfiller]

/-- What is written is read back: the same ids, shapes, labels and links, in the
same order.  The only chains that say something else are those that start with
the bare word that opens a group, and the word that closes one. -/
theorem statement?_text (chain : WrittenChain) (offset : ℕ)
    (hfirst : chain.head.first.label = none →
      chain.head.first.name ≠ "subgraph".toList)
    (hend : chain.text ≠ "end".toList) :
    (statement? chain.text offset).map Statement.unplaced =
      some chain.statement := by
  have hclose : closeGroup? chain.text = none := by
    rw [text_eq] at hend ⊢
    exact closeGroup?_name chain.head.first.isName chain.continuesId hend
  have hdirection : direction? chain.text = none := by
    rw [text_eq]
    exact direction?_name chain.head.first.isName chain.continuesId
  have heffect : effect? chain.text = some chain.statement := by
    rw [effect?_of_openGroup?_eq_none (chain.openGroup?_text hfirst), hclose,
      hdirection, chain.reading?_text]
    rfl
  rw [← effect?_statement? chain.text offset] at heffect
  obtain ⟨statement, hstatement, heffect⟩ := Option.bind_eq_some_iff.mp heffect
  have hgroup : ∀ header, chain.statement ≠ .openGroup header := by
    intro header
    simp only [WrittenChain.statement]
    split <;> simp
  rw [hstatement, Option.map_some, Statement.unplaced_eq heffect hgroup]

/-- A chain whose ids are keywords, with a label that holds quotes and one that
holds the delimiters around it. -/
def keywordChain : WrittenChain where
  head :=
    ⟨⟨"subgraph".toList, some (.rectangle, "say \"hi\" \\".toList), rfl⟩,
      [⟨"b-1".toList, none, rfl⟩]⟩
  links :=
    [(⟨[' '], .arrow, 2, some ⟨[], "x & y".toList, by simp, by decide⟩, [' '],
        by simp, by simp [isFiller, isBlank], by simp,
        by simp [isFiller, isBlank]⟩,
      ⟨⟨"end".toList, some (.circle, []), rfl⟩, []⟩),
     (⟨['\t'], .dottedLine, 1, none, [' '], by simp, by simp [isFiller, isBlank],
        by simp, by simp [isFiller, isBlank]⟩,
      ⟨⟨"direction".toList, some (.stadium, "])".toList), rfl⟩, []⟩)]

theorem statement?_text_keywordChain :
    keywordChain.text =
        ("subgraph[\"say \\\"hi\\\" \\\\\"] & b-1 ---->|\"x & y\"| " ++
          "end((\"\"))\t-..- direction([\"])\"])").toList ∧
      (statement? keywordChain.text 7).map Statement.unplaced =
        some keywordChain.statement :=
  ⟨by decide +kernel, keywordChain.statement?_text 7 (by decide) (by decide)⟩

end WrittenChain

end Grammar

end Flowchart
