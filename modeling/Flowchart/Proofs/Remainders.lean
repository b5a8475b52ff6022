import Flowchart.Proofs.Search
import Flowchart.Statement.Grammar
import Mathlib.Data.Option.Basic

/-!
# What readers leave

Every reader takes up text from the front: what it leaves is the end of the text
that it is given.
-/

namespace Flowchart.Grammar

open Text

/-- What the reader leaves is the end of the text. -/
def LeavesSuffix {α : Type} (reader : List Char → Option (α × List Char)) :
    Prop :=
  ∀ ⦃text value rest⦄, reader text = some (value, rest) → rest <:+ text

theorem suffix_of_after? {pattern text rest : List Char}
    (h : after? pattern text = some rest) : rest <:+ text := by
  rw [after?_eq_some_iff.mp h]
  exact List.suffix_append pattern rest

theorem leavesSuffix_cut? (pattern : List Char) :
    LeavesSuffix (cut? pattern) := by
  intro text before rest h
  rw [eq_of_cut?_eq_some h]
  exact List.suffix_append _ rest

/-! ### Nodes -/

theorem append_idTail (text : List Char) :
    (idTail text).1 ++ (idTail text).2 = text := by
  induction text with
  | nil => rfl
  | cons c rest ih =>
      unfold idTail
      split
      · exact congrArg (c :: ·) ih
      · rfl

theorem eq_of_id?_eq_some {text id rest : List Char}
    (h : id? text = some (id, rest)) : id ≠ [] ∧ text = id ++ rest := by
  unfold id? at h
  split at h
  next => exact absurd h (by simp)
  next hstart =>
    have hparts := append_idTail text
    rw [Option.some.inj h] at hparts
    refine ⟨?_, hparts.symm⟩
    rintro rfl
    cases text with
    | nil => exact hstart rfl
    | cons c below =>
        have hc : isIdChar c = true := by simpa [endsId] using hstart
        simp [idTail, hc] at h

theorem suffix_quotedInside (text : List Char) :
    (quotedInside text).2 <:+ text := by
  induction text using quotedInside.induct with
  | case1 c rest inside after hread ih =>
      rw [hread] at ih
      rw [quotedInside, hread]
      exact (ih.trans (List.suffix_cons c rest)).trans (List.suffix_cons _ _)
  | case2 => exact List.suffix_rfl
  | case3 rest => exact List.suffix_rfl
  | case4 c rest h1 h2 h3 inside after hread ih =>
      rw [hread] at ih
      rw [quotedInside, hread]
      · exact ih.trans (List.suffix_cons c rest)
      all_goals assumption
  | case5 => exact List.suffix_rfl

theorem leavesSuffix_quotedString? : LeavesSuffix quotedString? := by
  intro text inside rest h
  obtain ⟨start, hstart, h⟩ := Option.bind_eq_some_iff.mp h
  obtain ⟨after, hafter, h⟩ := Option.map_eq_some_iff.mp h
  obtain ⟨-, rfl⟩ := Prod.mk.inj h
  exact ((suffix_of_after? hafter).trans (suffix_quotedInside start)).trans
    (suffix_of_after? hstart)

theorem leavesSuffix_balanced? (closing : List Char) (depth : Nat) :
    LeavesSuffix (balanced? closing depth) := by
  intro text
  induction text generalizing depth with
  | nil => simp [balanced?]
  | cons c below ih =>
      intro body rest h
      unfold balanced? at h
      split at h
      next after hclosing =>
        obtain ⟨-, rfl⟩ := Prod.mk.inj (Option.some.inj h)
        split at hclosing
        next => exact suffix_of_after? hclosing
        next => exact absurd hclosing (by simp)
      next =>
        obtain ⟨⟨inner, after⟩, hread, h⟩ := Option.map_eq_some_iff.mp h
        obtain ⟨-, rfl⟩ := Prod.mk.inj h
        exact (ih _ hread).trans (List.suffix_cons c below)

theorem leavesSuffix_quotedLabel? (closing : List Char) :
    LeavesSuffix (quotedLabel? closing) := by
  intro text inside rest h
  obtain ⟨⟨value, start⟩, hstring, h⟩ := Option.bind_eq_some_iff.mp h
  obtain ⟨after, hafter, h⟩ := Option.map_eq_some_iff.mp h
  obtain ⟨-, rfl⟩ := Prod.mk.inj h
  have hrest := (suffix_of_after? hafter).trans
    (List.dropWhile_suffix isFiller)
  have hstart := (leavesSuffix_quotedString? hstring).trans
    (List.dropWhile_suffix isFiller)
  exact hrest.trans hstart

theorem leavesSuffix_label? (closing : List Char) :
    LeavesSuffix (label? closing) := by
  intro text value rest h
  unfold label? at h
  split at h
  next inside after hquoted =>
    obtain ⟨-, rfl⟩ := Prod.mk.inj (Option.some.inj h)
    exact leavesSuffix_quotedLabel? closing hquoted
  next =>
    obtain ⟨⟨body, after⟩, hbody, h⟩ := Option.map_eq_some_iff.mp h
    obtain ⟨-, rfl⟩ := Prod.mk.inj h
    exact leavesSuffix_balanced? closing 0 hbody

theorem leavesSuffix_definition? : LeavesSuffix definition? := by
  intro text definition rest h
  obtain ⟨delimiter, -, h⟩ := List.exists_of_findSome?_eq_some h
  obtain ⟨⟨label, after⟩, hlabel, h⟩ := Option.map_eq_some_iff.mp h
  obtain ⟨-, rfl⟩ := Prod.mk.inj h
  obtain ⟨start, hstart, hlabel⟩ := Option.bind_eq_some_iff.mp hlabel
  exact (leavesSuffix_label? _ hlabel).trans (suffix_of_after? hstart)

theorem suffix_skipClass (text : List Char) : skipClass text <:+ text := by
  unfold skipClass
  split
  next c rest hclass =>
    split
    next =>
      exact ((List.dropWhile_suffix isClassChar).trans
        (List.suffix_cons c rest)).trans (suffix_of_after? hclass)
    next => exact List.suffix_rfl
  next => exact List.suffix_rfl

/-- A node starts with its id; what follows it is left or belongs to the
node. -/
theorem exists_id_of_mention? {stop : Nat} {text rest : List Char}
    {mention : Mention} (h : mention? stop text = some (mention, rest)) :
    ∃ id behind, id ≠ [] ∧ text = id ++ behind ∧ rest <:+ behind ∧
      mention.id = String.ofList id ∧
      mention.span =
        Span.ofBounds (stop - byteLength text) (stop - byteLength rest) := by
  obtain ⟨⟨id, behind⟩, hid, h⟩ := Option.map_eq_some_iff.mp h
  obtain ⟨rfl, rfl⟩ := Prod.mk.inj h
  obtain ⟨hne, htext⟩ := eq_of_id?_eq_some hid
  refine ⟨id, behind, hne, htext, ?_, rfl, rfl⟩
  cases hdefinition : definition? behind with
  | none => exact suffix_skipClass behind
  | some parts =>
      exact (suffix_skipClass _).trans (leavesSuffix_definition? hdefinition)

theorem leavesSuffix_mention? (stop : Nat) : LeavesSuffix (mention? stop) := by
  intro text mention rest h
  obtain ⟨id, behind, -, rfl, hrest, -⟩ := exists_id_of_mention? h
  exact hrest.trans (List.suffix_append id behind)

theorem length_mention?_lt {stop : Nat} {text rest : List Char}
    {mention : Mention} (h : mention? stop text = some (mention, rest)) :
    rest.length < text.length := by
  obtain ⟨id, behind, hne, rfl, hrest, -⟩ := exists_id_of_mention? h
  have hlength := hrest.length_le
  have hpos := List.length_pos_of_ne_nil hne
  rw [List.length_append]
  omega

theorem exists_mention_of_nextMention? {stop : Nat} {text rest : List Char}
    {mention : Mention} (h : nextMention? stop text = some (mention, rest)) :
    ∃ start, start <:+ text ∧ mention? stop start = some (mention, rest) := by
  obtain ⟨behind, hbehind, h⟩ := Option.bind_eq_some_iff.mp h
  exact ⟨_, ((List.dropWhile_suffix isFiller).trans
    (suffix_of_after? hbehind)).trans (List.dropWhile_suffix isFiller), h⟩

theorem length_nextMention?_lt {stop : Nat} {text rest : List Char}
    {mention : Mention} (h : nextMention? stop text = some (mention, rest)) :
    rest.length < text.length := by
  obtain ⟨start, hstart, hmention⟩ := exists_mention_of_nextMention? h
  exact (length_mention?_lt hmention).trans_le hstart.length_le

theorem moreMentions_of_some {stop : Nat} {text rest : List Char}
    {mention : Mention} (h : nextMention? stop text = some (mention, rest)) :
    moreMentions stop text =
      (mention :: (moreMentions stop rest).1, (moreMentions stop rest).2) := by
  rw [moreMentions, h]
  simp [length_nextMention?_lt h]

theorem moreMentions_of_none {stop : Nat} {text : List Char}
    (h : nextMention? stop text = none) :
    moreMentions stop text = ([], text) := by
  rw [moreMentions, h]

theorem suffix_moreMentions (stop : Nat) (text : List Char) :
    (moreMentions stop text).2 <:+ text := by
  induction text using moreMentions.induct stop with
  | case1 text h => rw [moreMentions_of_none h]
  | case2 text mention rest h hlt others after hmore ih =>
      rw [moreMentions_of_some h]
      obtain ⟨start, hstart, hmention⟩ := exists_mention_of_nextMention? h
      exact (ih.trans (leavesSuffix_mention? stop hmention)).trans hstart
  | case3 text mention rest h hlt => exact absurd (length_nextMention?_lt h) hlt

theorem leavesSuffix_mentions? (stop : Nat) :
    LeavesSuffix (mentions? stop) := by
  intro text mentions rest h
  obtain ⟨⟨mention, behind⟩, hmention, h⟩ := Option.map_eq_some_iff.mp h
  obtain ⟨-, rfl⟩ := Prod.mk.inj h
  exact (suffix_moreMentions stop behind).trans
    (leavesSuffix_mention? stop hmention)

theorem length_mentions?_lt {stop : Nat} {text rest : List Char}
    {mentions : List Mention}
    (h : mentions? stop text = some (mentions, rest)) :
    rest.length < text.length := by
  obtain ⟨⟨mention, behind⟩, hmention, h⟩ := Option.map_eq_some_iff.mp h
  obtain ⟨-, rfl⟩ := Prod.mk.inj h
  exact (suffix_moreMentions stop behind).length_le.trans_lt
    (length_mention?_lt hmention)

/-! ### Links -/

theorem leavesSuffix_run? (mark : Char) (least : Nat) :
    LeavesSuffix (run? mark least) := by
  intro text count rest h
  rw [run?, Option.ite_none_right_eq_some] at h
  obtain ⟨-, rfl⟩ := Prod.mk.inj (Option.some.inj h.2)
  exact List.drop_suffix _ text

theorem LeavesSuffix.orElse {α : Type}
    {first second : List Char → Option (α × List Char)}
    (hfirst : LeavesSuffix first) (hsecond : LeavesSuffix second) :
    LeavesSuffix fun text => first text <|> second text := by
  intro text value rest h
  rcases (Option.orElse_eq_some _ _ _).mp h with h | ⟨-, h⟩
  · exact hfirst h
  · exact hsecond h

theorem leavesSuffix_solidHead? : LeavesSuffix solidHead? := by
  intro text connector rest h
  unfold solidHead? at h
  split at h
  next below =>
    obtain ⟨-, rfl⟩ := Prod.mk.inj (Option.some.inj h)
    exact List.suffix_cons '>' below
  next below =>
    rw [Option.ite_none_right_eq_some] at h
    obtain ⟨-, rfl⟩ := Prod.mk.inj (Option.some.inj h.2)
    exact List.suffix_cons 'o' below
  next below =>
    rw [Option.ite_none_right_eq_some] at h
    obtain ⟨-, rfl⟩ := Prod.mk.inj (Option.some.inj h.2)
    exact List.suffix_cons 'x' below
  next => exact absurd h (by simp)

theorem leavesSuffix_solid? : LeavesSuffix solid? := by
  intro text connector rest h
  obtain ⟨⟨count, behind⟩, hrun, h⟩ := Option.bind_eq_some_iff.mp h
  have hbehind := leavesSuffix_run? '-' 2 hrun
  simp only at h
  split at h
  next head hhead =>
    obtain rfl := Option.some.inj h
    exact (leavesSuffix_solidHead? hhead).trans hbehind
  next =>
    rw [Option.ite_none_right_eq_some] at h
    obtain ⟨-, rfl⟩ := Prod.mk.inj (Option.some.inj h.2)
    exact hbehind

theorem suffix_dottedHead (text : List Char) : (dottedHead text).2 <:+ text := by
  unfold dottedHead
  split
  next below => exact List.suffix_cons '>' below
  next => exact List.suffix_rfl

theorem suffix_of_afterDots? {text rest : List Char}
    (h : afterDots? text = some rest) : rest <:+ text := by
  obtain ⟨start, hstart, h⟩ := Option.bind_eq_some_iff.mp h
  obtain ⟨⟨count, behind⟩, hrun, hrest⟩ := Option.bind_eq_some_iff.mp h
  exact ((suffix_of_after? hrest).trans (leavesSuffix_run? '.' 1 hrun)).trans
    (suffix_of_after? hstart)

theorem leavesSuffix_dotted? : LeavesSuffix dotted? := by
  intro text connector rest h
  obtain ⟨behind, hbehind, h⟩ := Option.map_eq_some_iff.mp h
  have hhead := suffix_dottedHead behind
  rw [h] at hhead
  exact hhead.trans (suffix_of_afterDots? hbehind)

theorem leavesSuffix_thick? : LeavesSuffix thick? := by
  intro text connector rest h
  obtain ⟨⟨count, behind⟩, hrun, h⟩ := Option.bind_eq_some_iff.mp h
  have hbehind := leavesSuffix_run? '=' 2 hrun
  simp only at h
  split at h
  next after hafter =>
    obtain ⟨-, rfl⟩ := Prod.mk.inj (Option.some.inj h)
    exact (suffix_of_after? hafter).trans hbehind
  next =>
    rw [Option.ite_none_right_eq_some] at h
    obtain ⟨-, rfl⟩ := Prod.mk.inj (Option.some.inj h.2)
    exact hbehind

theorem leavesSuffix_invisible? : LeavesSuffix invisible? := by
  intro text connector rest h
  obtain ⟨⟨count, behind⟩, hrun, h⟩ := Option.map_eq_some_iff.mp h
  obtain ⟨-, rfl⟩ := Prod.mk.inj h
  exact leavesSuffix_run? '~' 3 hrun

theorem suffix_of_afterBody? {text rest : List Char}
    (h : afterBody? text = some rest) : rest <:+ text := by
  have hrun {mark : Char} {rest : List Char}
      (h : ((run? mark 2 text).map Prod.snd).bind (after? ['>']) = some rest) :
      rest <:+ text := by
    obtain ⟨behind, hbehind, hrest⟩ := Option.bind_eq_some_iff.mp h
    obtain ⟨⟨count, start⟩, hstart, rfl⟩ := Option.map_eq_some_iff.mp hbehind
    exact (suffix_of_after? hrest).trans (leavesSuffix_run? mark 2 hstart)
  rcases (Option.orElse_eq_some _ _ _).mp h with h | ⟨-, h⟩
  · exact hrun h
  · rcases (Option.orElse_eq_some _ _ _).mp h with h | ⟨-, h⟩
    · exact hrun h
    · obtain ⟨behind, hbehind, hrest⟩ := Option.bind_eq_some_iff.mp h
      exact (suffix_of_after? hrest).trans (suffix_of_afterDots? hbehind)

theorem leavesSuffix_bidirectional? : LeavesSuffix bidirectional? := by
  intro text connector rest h
  obtain ⟨behind, hbehind, h⟩ := Option.map_eq_some_iff.mp h
  obtain ⟨start, hstart, hbody⟩ := Option.bind_eq_some_iff.mp hbehind
  obtain ⟨-, rfl⟩ := Prod.mk.inj h
  exact (suffix_of_afterBody? hbody).trans (suffix_of_after? hstart)

theorem leavesSuffix_plainConnector? : LeavesSuffix plainConnector? :=
  leavesSuffix_bidirectional?.orElse (leavesSuffix_dotted?.orElse
    (leavesSuffix_solid?.orElse (leavesSuffix_thick?.orElse
      leavesSuffix_invisible?)))

theorem leavesSuffix_before? (pattern : List Char) :
    LeavesSuffix (before? pattern) := by
  intro text inner rest h
  obtain ⟨⟨before, behind⟩, hcut, h⟩ := Option.bind_eq_some_iff.mp h
  rw [Option.ite_none_left_eq_some] at h
  obtain ⟨rfl, rfl⟩ := Prod.mk.inj (Option.some.inj h.2)
  rw [eq_of_cut?_eq_some hcut, List.append_assoc]
  exact List.suffix_append before _

theorem suffix_of_textConnector? {text inner rest : List Char}
    {connector : Connector}
    (h : textConnector? text = some (connector, inner, rest)) :
    rest <:+ text := by
  have hinside {opening closing start before behind : List Char}
      (hstart : after? opening text = some start)
      (hbefore : before? closing start = some (before, behind)) :
      behind <:+ text :=
    (leavesSuffix_before? closing hbefore).trans (suffix_of_after? hstart)
  rcases (Option.orElse_eq_some _ _ _).mp h with h | ⟨-, h⟩
  · obtain ⟨start, hstart, h⟩ := Option.bind_eq_some_iff.mp h
    obtain ⟨⟨before, behind⟩, hbefore, h⟩ := Option.bind_eq_some_iff.mp h
    obtain ⟨⟨solid, after⟩, hafter, h⟩ := Option.bind_eq_some_iff.mp h
    obtain ⟨-, heq⟩ := Prod.mk.inj (Option.some.inj h)
    obtain ⟨rfl, rfl⟩ := Prod.mk.inj heq
    exact (leavesSuffix_solid? hafter).trans (hinside hstart hbefore)
  · rcases (Option.orElse_eq_some _ _ _).mp h with h | ⟨-, h⟩
    · obtain ⟨start, hstart, h⟩ := Option.bind_eq_some_iff.mp h
      obtain ⟨⟨before, behind⟩, hbefore, h⟩ := Option.bind_eq_some_iff.mp h
      obtain ⟨after, hafter, h⟩ := Option.bind_eq_some_iff.mp h
      obtain ⟨-, heq⟩ := Prod.mk.inj (Option.some.inj h)
      obtain ⟨rfl, rfl⟩ := Prod.mk.inj heq
      exact ((suffix_dottedHead after).trans (suffix_of_after? hafter)).trans
        (hinside hstart hbefore)
    · obtain ⟨start, hstart, h⟩ := Option.bind_eq_some_iff.mp h
      obtain ⟨⟨before, behind⟩, hbefore, h⟩ := Option.bind_eq_some_iff.mp h
      obtain ⟨⟨thick, after⟩, hafter, h⟩ := Option.bind_eq_some_iff.mp h
      obtain ⟨-, heq⟩ := Prod.mk.inj (Option.some.inj h)
      obtain ⟨rfl, rfl⟩ := Prod.mk.inj heq
      exact (leavesSuffix_thick? hafter).trans (hinside hstart hbefore)

theorem leavesSuffix_barText? : LeavesSuffix barText? := by
  intro text label rest h
  obtain ⟨start, hstart, hcut⟩ := Option.bind_eq_some_iff.mp h
  exact (leavesSuffix_cut? ['|'] hcut).trans (suffix_of_after? hstart)

theorem suffix_of_connector? {text rest : List Char} {connector : Connector}
    {inner : Option (List Char)}
    (h : connector? text = some (connector, inner, rest)) : rest <:+ text := by
  unfold connector? at h
  split at h
  next plain after hplain =>
    obtain ⟨-, rfl⟩ := Prod.mk.inj (Prod.mk.inj (Option.some.inj h)).2
    exact leavesSuffix_plainConnector? hplain
  next =>
    obtain ⟨⟨other, before, after⟩, htext, h⟩ := Option.map_eq_some_iff.mp h
    obtain ⟨-, rfl⟩ := Prod.mk.inj (Prod.mk.inj h).2
    exact suffix_of_textConnector? htext

theorem leavesSuffix_link? : LeavesSuffix link? := by
  intro text link rest h
  obtain ⟨⟨connector, inner, behind⟩, hconnector, h⟩ :=
    Option.map_eq_some_iff.mp h
  have hbehind := suffix_of_connector? hconnector
  simp only at h
  split at h
  next label after hlabel =>
    obtain ⟨-, rfl⟩ := Prod.mk.inj h
    exact ((leavesSuffix_barText? hlabel).trans
      (List.dropWhile_suffix isFiller)).trans hbehind
  next =>
    obtain ⟨-, rfl⟩ := Prod.mk.inj h
    exact hbehind

/-! ### Chains -/

theorem exists_mentions_of_nextLink? {stop : Nat} {text rest : List Char}
    {link : Link} {mentions : List Mention}
    (h : nextLink? stop text = some ((link, mentions), rest)) :
    ∃ start, start <:+ text ∧ mentions? stop start = some (mentions, rest) := by
  obtain ⟨⟨first, behind⟩, hlink, h⟩ := Option.bind_eq_some_iff.mp h
  obtain ⟨⟨targets, after⟩, hmentions, h⟩ := Option.map_eq_some_iff.mp h
  obtain ⟨hpair, rfl⟩ := Prod.mk.inj h
  obtain ⟨-, rfl⟩ := Prod.mk.inj hpair
  exact ⟨_, ((List.dropWhile_suffix isFiller).trans
    (leavesSuffix_link? hlink)).trans (List.dropWhile_suffix isFiller),
    hmentions⟩

theorem length_nextLink?_lt {stop : Nat} {text rest : List Char}
    {link : Link × List Mention}
    (h : nextLink? stop text = some (link, rest)) :
    rest.length < text.length := by
  obtain ⟨start, hstart, hmentions⟩ := exists_mentions_of_nextLink? h
  exact (length_mentions?_lt hmentions).trans_le hstart.length_le

theorem moreLinks_of_some {stop : Nat} {text rest : List Char}
    {link : Link × List Mention}
    (h : nextLink? stop text = some (link, rest)) :
    moreLinks stop text =
      (link :: (moreLinks stop rest).1, (moreLinks stop rest).2) := by
  rw [moreLinks, h]
  simp [length_nextLink?_lt h]

theorem moreLinks_of_none {stop : Nat} {text : List Char}
    (h : nextLink? stop text = none) : moreLinks stop text = ([], text) := by
  rw [moreLinks, h]

theorem leavesSuffix_nextLink? (stop : Nat) :
    LeavesSuffix (nextLink? stop) := by
  intro text link rest h
  obtain ⟨start, hstart, hmentions⟩ := exists_mentions_of_nextLink? h
  exact (leavesSuffix_mentions? stop hmentions).trans hstart

end Flowchart.Grammar
