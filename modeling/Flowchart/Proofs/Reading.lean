import Flowchart.Proofs.Meaning
import Flowchart.Proofs.Remainders
import Mathlib.Data.List.TakeWhile

/-!
# Reading chains node by node

A chain of nodes and links is read from the left: a node, what stands between
it and the next one, and the rest of the chain.  Every node that is read makes
the text shorter, so that the rest is read like a chain of its own.
-/

namespace Flowchart.Grammar

open Text

/-! ### The chain that a text starts with -/

/-- Nodes, further nodes with the links to them, and what is left. -/
structure Reading where
  head : List Mention
  links : List (Link × List Mention)
  rest : List Char

def reading? (text : List Char) : Option Reading :=
  (mentions? 0 text).map fun (head, rest) =>
    ⟨head, (moreLinks 0 rest).1, (moreLinks 0 rest).2⟩

/-- The statement that a chain makes up, if nothing is left behind it. -/
def Reading.statement? (reading : Reading) : Option Statement :=
  if isRest reading.rest then
    some (if reading.links.isEmpty then .nodes reading.head
      else .chain ⟨reading.head, reading.links⟩)
  else none

theorem link?_nil : link? [] = none := by
  decide

theorem isRest_eq_false_of_nextLink? {text : List Char} {stop : Nat}
    {result : (Link × List Mention) × List Char}
    (h : nextLink? stop text = some result) : isRest text = false := by
  rw [Bool.eq_false_iff]
  intro hrest
  have hempty : text.dropWhile isFiller = [] :=
    List.dropWhile_eq_nil_iff.mpr (by simpa [isRest] using hrest)
  rw [nextLink?, hempty, link?_nil] at h
  exact absurd h (by simp)

theorem reading?_statement? (text : List Char) :
    ((whole? (chain? 0 text)).map Statement.chain <|>
      (whole? (mentions? 0 text)).map Statement.nodes) =
        (reading? text).bind Reading.statement? := by
  unfold reading? chain?
  cases mentions? 0 text with
  | none => rfl
  | some parts =>
      cases hnext : nextLink? 0 parts.2 with
      | none =>
          simp only [Option.bind_some, Option.map_some,
            moreLinks_of_none hnext, List.isEmpty_nil, if_true, whole?,
            Option.bind_none, Option.map_none, Reading.statement?]
          split <;> rfl
      | some result =>
          have hrest := isRest_eq_false_of_nextLink? hnext
          have hlinks : (moreLinks 0 parts.2).1.isEmpty = false := by
            rw [moreLinks, hnext]
            simp only
            split <;> rfl
          simp only [Option.bind_some, Option.map_some, hlinks, whole?, hrest,
            Reading.statement?, Bool.false_eq_true, if_false, Option.map_none]
          split <;> rfl

/-! ### Node by node -/

/-- Reads what stands between two nodes of a chain: an ampersand, or a link. -/
def separator? (text : List Char) : Option (Option Link × List Char) :=
  let start := text.dropWhile isFiller
  match after? ['&'] start with
  | some rest => some (none, rest.dropWhile isFiller)
  | none =>
    (link? start).map fun (link, rest) => (some link, rest.dropWhile isFiller)

/-- The chain with one more node before it. -/
def Reading.cons (mention : Mention) (separator : Option Link)
    (reading : Reading) : Reading :=
  match separator with
  | none => ⟨mention :: reading.head, reading.links, reading.rest⟩
  | some link =>
    ⟨[mention], (link, reading.head) :: reading.links, reading.rest⟩

theorem reading?_congr {text other : List Char}
    (h : mention? 0 text = mention? 0 other) : reading? text = reading? other := by
  unfold reading? mentions?
  rw [h]

theorem isSome_reading? {text : List Char} (h : endsId text = false) :
    (reading? text).isSome = true := by
  simp [reading?, mentions?, mention?, id?, h]

theorem reading?_cons {text gap rest : List Char} {mention : Mention}
    {separator : Option Link} {reading : Reading}
    (hmention : mention? 0 text = some (mention, gap ++ rest))
    (hseparator : separator? (gap ++ rest) = some (separator, rest))
    (hreading : reading? rest = some reading) :
    reading? text = some (reading.cons mention separator) := by
  obtain ⟨⟨head, last⟩, hmentions, rfl⟩ := Option.map_eq_some_iff.mp hreading
  unfold separator? at hseparator
  simp only at hseparator
  -- Behind an ampersand the first nodes of the rest go on, behind a link they
  -- are its targets.
  cases hand : after? ['&'] ((gap ++ rest).dropWhile isFiller) with
  | some start =>
      rw [hand] at hseparator
      obtain ⟨rfl, hrest⟩ := Prod.mk.inj (Option.some.inj hseparator)
      obtain ⟨⟨second, behind⟩, hsecond, hhead⟩ :=
        Option.map_eq_some_iff.mp hmentions
      obtain ⟨rfl, rfl⟩ := Prod.mk.inj hhead
      have hnext : nextMention? 0 (gap ++ rest) = some (second, behind) := by
        rw [nextMention?, hand, Option.bind_some, hrest, hsecond]
      simp [reading?, mentions?, hmention, moreMentions_of_some hnext,
        Reading.cons]
  | none =>
      rw [hand] at hseparator
      obtain ⟨⟨link, start⟩, hlink, heq⟩ := Option.map_eq_some_iff.mp hseparator
      obtain ⟨rfl, hrest⟩ := Prod.mk.inj heq
      have hnone : nextMention? 0 (gap ++ rest) = none := by
        rw [nextMention?, hand, Option.bind_none]
      have hnext : nextLink? 0 (gap ++ rest) = some ((link, head), last) := by
        simp only at hrest
        rw [nextLink?, hlink, Option.bind_some]
        simp only [hrest, hmentions, Option.map_some]
      simp [reading?, mentions?, hmention, moreMentions_of_none hnone,
        moreLinks_of_some hnext, Reading.cons]

end Flowchart.Grammar
