import Flowchart.Proofs.WrittenChains

/-!
# Labels without quotes

A label that closes every bracket it opens, and none besides, ends at the
closing delimiter and not earlier.  Some delimiters start others and several
end alike; the order in which they are tried settles which of them is meant, as
long as the label does not start with a bracket itself.
-/

namespace Flowchart.Grammar

open Text

/-! ### Brackets inside labels -/

/-- The number of brackets of all kinds that are open behind the text, given
the number in front of it, unless there is one too many that closes. -/
def openBrackets? : ℕ → List Char → Option ℕ
  | depth, [] => some depth
  | depth, c :: rest =>
    if c = '(' ∨ c = '[' ∨ c = '{' then openBrackets? (depth + 1) rest
    else if c = ')' ∨ c = ']' ∨ c = '}' then
      if depth = 0 then none else openBrackets? (depth - 1) rest
    else openBrackets? depth rest

/-- A label that needs no quotes, whichever delimiters stand around it. -/
structure IsBareLabel (body : List Char) : Prop where
  balanced : openBrackets? 0 body = some 0
  head : ∀ c ∈ body.head?, c ∉ ['(', '[', '{']
  unquoted : (body.dropWhile isFiller).head? ≠ some '"'

instance (body : List Char) : Decidable (IsBareLabel body) :=
  have hhead : body.head?.all (fun c => c != '(' && c != '[' && c != '{') = true ↔
      ∀ c ∈ body.head?, c ∉ ['(', '[', '{'] := by
    cases body.head? <;> simp [and_assoc]
  decidable_of_iff
    (openBrackets? 0 body = some 0 ∧
      body.head?.all (fun c => c != '(' && c != '[' && c != '{') = true ∧
      (body.dropWhile isFiller).head? ≠ some '"')
    ⟨fun ⟨balanced, head, unquoted⟩ => ⟨balanced, hhead.mp head, unquoted⟩,
      fun ⟨balanced, head, unquoted⟩ => ⟨balanced, hhead.mpr head, unquoted⟩⟩

theorem balanced?_of_openBrackets? {mark : Char} (hmark : mark ∈ [')', ']', '}'])
    (closing rest : List Char) {body : List Char} {depth : ℕ}
    (h : openBrackets? depth body = some 0) :
    balanced? (mark :: closing) depth (body ++ (mark :: closing ++ rest)) =
      some (body, rest) := by
  induction body generalizing depth with
  | nil =>
      obtain rfl : depth = 0 := Option.some.inj h
      rw [List.nil_append, List.cons_append, balanced?, if_pos rfl,
        ← List.cons_append, after?_append]
  | cons c body ih =>
      have hnone : (if depth = 0 then
          after? (mark :: closing) (c :: (body ++ (mark :: closing ++ rest)))
          else none) = none := by
        split
        next hdepth =>
          rw [after?_eq_none_iff, List.cons_prefix_cons]
          rintro ⟨rfl, -⟩
          -- Nothing is open in front of the mark, which would close one more.
          simp only [List.mem_cons, List.not_mem_nil, or_false] at hmark
          rcases hmark with rfl | rfl | rfl <;> simp [openBrackets?, hdepth] at h
        next => rfl
      rw [List.cons_append, balanced?, hnone]
      unfold openBrackets? at h
      split at h
      next hopen => simp only [if_pos hopen, ih h, Option.map_some]
      next hopen =>
        split at h
        next hclose =>
          split at h
          next => exact absurd h (by simp)
          next => simp only [if_neg hopen, if_pos hclose, ih h, Option.map_some]
        next hclose =>
          simp only [if_neg hopen, if_neg hclose, ih h, Option.map_some]

/-! ### Delimiters -/

theorem Delimiter.closing_of_mem {delimiter : Delimiter} (h : delimiter ∈ all) :
    ∃ mark ∈ [')', ']', '}'], ∃ more, delimiter.closing = mark :: more := by
  have hall : ∀ delimiter ∈ all, delimiter.closing.head?.any
      (· ∈ [')', ']', '}']) = true := by
    decide
  obtain ⟨mark, hmark, hmem⟩ := (Option.any_eq_true _ _).mp (hall delimiter h)
  exact ⟨mark, by simpa using hmem, List.head?_eq_some_iff.mp hmark⟩

theorem Delimiter.pairwise_opening :
    all.Pairwise fun earlier later => ¬ earlier.opening <+: later.opening := by
  decide

/-- The delimiters in front of the one that is meant do not open the text. -/
theorem Delimiter.after?_opening_eq_none {earlier later : List Delimiter}
    {delimiter other : Delimiter} (hall : all = earlier ++ delimiter :: later)
    (hother : other ∈ earlier) {behind : List Char}
    (hbehind : ∀ c ∈ behind.head?, c ∉ ['(', '[', '{']) :
    after? other.opening (delimiter.opening ++ behind) = none := by
  rw [after?_eq_none_iff]
  intro hprefix
  rcases prefix_append_cases hprefix with hstarts | ⟨more, heq, hne, hmore⟩
  · have hpairwise := pairwise_opening
    rw [hall, List.pairwise_append] at hpairwise
    exact hpairwise.2.2 other hother delimiter (by simp) hstarts
  · have hnested : ∀ delimiter ∈ all, delimiter.opening ≠ [] ∧
        delimiter.opening.tail ⊆ ['(', '[', '{'] := by
      decide
    have hdelimiter := (hnested delimiter (by simp [hall])).1
    obtain ⟨c, more, rfl⟩ := List.exists_cons_of_ne_nil hne
    apply hbehind c (List.head?_eq_some_iff.mpr ?_)
    · apply (hnested other (by simp [hall, hother])).2
      rw [heq, List.tail_append_of_ne_nil hdelimiter]
      simp
    · obtain ⟨rest, hrest⟩ := hmore
      exact ⟨more ++ rest, hrest.symm⟩

theorem label?_bareLabel {delimiter : Delimiter}
    (hdelimiter : delimiter ∈ Delimiter.all) {body : List Char}
    (hbody : IsBareLabel body) (rest : List Char) :
    label? delimiter.closing (body ++ (delimiter.closing ++ rest)) =
      some (Label.normalize body false, rest) := by
  obtain ⟨mark, hmark, closing, hclosing⟩ := Delimiter.closing_of_mem hdelimiter
  have hfiller : isFiller mark = false ∧ mark ≠ '"' := by
    simp only [List.mem_cons, List.not_mem_nil, or_false] at hmark
    rcases hmark with rfl | rfl | rfl <;> decide
  rw [hclosing]
  have hquoted : quotedLabel? (mark :: closing)
      (body ++ (mark :: closing ++ rest)) = none := by
    rw [quotedLabel?, quotedString?_eq_none, Option.bind_none]
    rw [List.cons_append, head?_dropWhile_append body hfiller.1]
    have hunquoted := hbody.unquoted
    cases hhead : (body.dropWhile isFiller).head? with
    | none => simpa using hfiller.2
    | some c => simpa [hhead] using hunquoted
  rw [label?, hquoted]
  simp only [balanced?_of_openBrackets? hmark closing rest hbody.balanced,
    Option.map_some]

theorem definition?_bareLabel {delimiter : Delimiter}
    (hdelimiter : delimiter ∈ Delimiter.all) {body : List Char}
    (hbody : IsBareLabel body) (rest : List Char) :
    definition? (delimiter.opening ++ (body ++ (delimiter.closing ++ rest))) =
      some (⟨delimiter.shape, String.ofList (Label.normalize body false)⟩,
        rest) := by
  obtain ⟨earlier, later, hall⟩ := List.append_of_mem hdelimiter
  apply definition?_of_split hall
  · intro other hother
    apply Delimiter.after?_opening_eq_none hall hother
    intro c hc
    cases body with
    | cons d body => exact hbody.head c hc
    | nil =>
        obtain ⟨mark, hmark, closing, hclosing⟩ :=
          Delimiter.closing_of_mem hdelimiter
        obtain rfl : mark = c := by simpa [hclosing] using hc
        simp only [List.mem_cons, List.not_mem_nil, or_false] at hmark
        rcases hmark with rfl | rfl | rfl <;> decide
  · rw [Delimiter.read?, after?_append, Option.bind_some,
      label?_bareLabel hdelimiter hbody, Option.map_some]

/-! ### Statements with one node -/

/-- What a definition starts with. -/
theorem exists_cons_of_definition? {text rest : List Char}
    {definition : Definition} (h : definition? text = some (definition, rest)) :
    ∃ c ∈ ['(', '[', '{', '>'], ∃ more, text = c :: more := by
  obtain ⟨delimiter, hdelimiter, hread⟩ := List.exists_of_findSome?_eq_some h
  obtain ⟨label, hlabel, -⟩ := Option.map_eq_some_iff.mp hread
  obtain ⟨behind, hbehind, -⟩ := Option.bind_eq_some_iff.mp hlabel
  have hopening : ∀ delimiter ∈ Delimiter.all, delimiter.opening.head?.any
      (· ∈ ['(', '[', '{', '>']) = true := by
    decide
  obtain ⟨c, hc, hmem⟩ :=
    (Option.any_eq_true _ _).mp (hopening delimiter hdelimiter)
  obtain ⟨more, hmore⟩ := List.head?_eq_some_iff.mp hc
  refine ⟨c, by simpa using hmem, more ++ behind, ?_⟩
  rw [after?_eq_some_iff.mp hbehind, hmore, List.cons_append]

section Node

variable {name behind : List Char} {definition : Definition}

theorem endsId_of_definition? {rest : List Char}
    (h : definition? behind = some (definition, rest)) :
    endsId behind = true ∧ behind.head? ≠ some '-' := by
  obtain ⟨c, hc, more, rfl⟩ := exists_cons_of_definition? h
  simp only [List.mem_cons, List.not_mem_nil, or_false] at hc
  rcases hc with rfl | rfl | rfl | rfl <;> exact ⟨rfl, by simp⟩

/-- Where a node with a label starts with a keyword, the rest of its id or its
label stands at once behind the keyword. -/
theorem exists_cons_of_after?_node {word rest after : List Char}
    (hname : IsName name) (hword : word.all isIdChar = true)
    (hdefinition : definition? behind = some (definition, after))
    (h : after? word (name ++ behind) = some rest) :
    ∃ c more, rest = c :: more ∧ isFiller c = false := by
  obtain ⟨inner, hinner, rfl⟩ :=
    exists_of_after?_name hword (endsId_of_definition? hdefinition).1 h
  cases inner with
  | cons c inner =>
      refine ⟨c, inner ++ behind, rfl, ?_⟩
      exact isFiller_of_mem_name hname (by rw [hinner]; simp)
  | nil =>
      obtain ⟨c, hc, more, rfl⟩ := exists_cons_of_definition? hdefinition
      refine ⟨c, more, rfl, ?_⟩
      simp only [List.mem_cons, List.not_mem_nil, or_false] at hc
      rcases hc with rfl | rfl | rfl | rfl <;> decide

theorem mentions?_node (hname : IsName name)
    (hdefinition : definition? behind = some (definition, [])) (offset : ℕ) :
    mentions? (offset + byteLength (name ++ behind)) (name ++ behind) =
      some ([⟨String.ofList name, some definition,
        Span.ofLength offset (byteLength (name ++ behind))⟩], []) := by
  obtain ⟨hends, hhyphen⟩ := endsId_of_definition? hdefinition
  have hmore : ∀ stop, moreMentions stop [] = ([], []) := fun _ =>
    moreMentions_of_none rfl
  have hclass : skipClass [] = [] := rfl
  have hlength : byteLength [] = 0 := rfl
  simp [mentions?, mention?, id?_append hname hends hhyphen, hdefinition, hclass,
    hmore, hlength, Span.ofBounds, Span.ofLength]

/-- A node with a label makes up a statement, even if its id starts with the
keyword of another one. -/
theorem statement?_node (hname : IsName name)
    (hdefinition : definition? behind = some (definition, [])) (offset : ℕ) :
    statement? (name ++ behind) offset =
      some (.nodes [⟨String.ofList name, some definition,
        Span.ofLength offset (byteLength (name ++ behind))⟩]) := by
  have hkeyword : ∀ word : List Char, word.all isIdChar = true →
      ∀ rest, after? word (name ++ behind) = some rest →
        ∃ c more, rest = c :: more ∧ isFiller c = false := fun word hword rest =>
    exists_cons_of_after?_node hname hword hdefinition
  have hopen : openGroup? (name ++ behind) = none := by
    unfold openGroup?
    cases hword : after? "subgraph".toList (name ++ behind) with
    | none => rfl
    | some rest =>
        obtain ⟨c, more, rfl, hc⟩ := hkeyword _ (by decide) _ hword
        simp [hc]
  have hclose : closeGroup? (name ++ behind) = none := by
    unfold closeGroup?
    cases hword : after? "end".toList (name ++ behind) with
    | none => rfl
    | some rest =>
        obtain ⟨c, more, rfl, hc⟩ := hkeyword _ (by decide) _ hword
        simp [whole?, isRest_eq_false List.mem_cons_self hc]
  have hdirection : direction? (name ++ behind) = none := by
    unfold direction?
    cases hword : after? "direction".toList (name ++ behind) with
    | none => rfl
    | some rest =>
        obtain ⟨c, more, rfl, hc⟩ := hkeyword _ (by decide) _ hword
        have hblank : isBlank c = false := by simp_all [isFiller]
        simp [afterBlanks?, hblank]
  have hmentions := mentions?_node hname hdefinition offset
  have hnodes := congrArg whole? hmentions
  have hchain : whole? (chain? (offset + byteLength (name ++ behind))
      (name ++ behind)) = none := by
    have hlinks := moreLinks_of_none
      (rfl : nextLink? (offset + byteLength (name ++ behind)) [] = none)
    simp only [chain?, hmentions, Option.bind_some, hlinks]
    rfl
  simp only [statement?, hopen, hclose, hdirection, hchain, hnodes]
  rfl

/-- A label without quotes is read whole between any two delimiters, and so is
the node, which takes up the whole statement. -/
theorem statement?_bareLabel {delimiter : Delimiter} {body : List Char}
    (hdelimiter : delimiter ∈ Delimiter.all) (hname : IsName name)
    (hbody : IsBareLabel body) (offset : ℕ) :
    statement? (name ++ (delimiter.opening ++ (body ++ delimiter.closing)))
        offset =
      some (.nodes [⟨String.ofList name,
        some ⟨delimiter.shape, String.ofList (Label.normalize body false)⟩,
        Span.ofLength offset (byteLength
          (name ++ (delimiter.opening ++ (body ++ delimiter.closing))))⟩]) := by
  apply statement?_node hname _ offset
  have hdefinition := definition?_bareLabel hdelimiter hbody []
  rwa [List.append_nil] at hdefinition

end Node

theorem statement?_bareLabel_nested :
    statement? "end([ [a) x([b]) \x7bc] \"d\"])".toList 5 =
      some (.nodes [⟨"end", some ⟨.stadium, "[a) x([b]) \x7bc] \"d\""⟩,
        Span.ofLength 5 26⟩]) := by
  have hdelimiter : (⟨['(', '['], [']', ')'], .stadium⟩ : Delimiter) ∈
      Delimiter.all := by decide
  have hname : IsName "end".toList := rfl
  have hbody : IsBareLabel " [a) x([b]) \x7bc] \"d\"".toList := by decide
  exact (statement?_bareLabel hdelimiter hname hbody 5).trans
    (by decide +kernel)

end Flowchart.Grammar
