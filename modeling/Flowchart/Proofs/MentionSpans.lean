import Flowchart.Proofs.References
import Flowchart.Proofs.Remainders

/-!
# Where nodes stand

A node is read from what is left of a statement, and its span is counted back
from the end of the statement.  As every reader leaves the end of its text, the
span is the place where the node stands in the source: it starts with the id.
-/

namespace Flowchart

open Text

/-! ### Parts of a source -/

/-- The part of the source stands at the span. -/
def Span.Marks (span : Span) (source part : List Char) : Prop :=
  ∃ before after, source = before ++ (part ++ after) ∧
    span = Span.ofLength (byteLength before) (byteLength part)

namespace Span.Marks

variable {span : Span} {source text part before after : List Char}

theorem stop_le (h : span.Marks source part) :
    span.stop ≤ byteLength source := by
  obtain ⟨before, after, rfl, rfl⟩ := h
  simp only [Span.ofLength, byteLength_append]
  omega

/-- A part of a part stands inside of it. -/
theorem inside (h : span.Marks source (before ++ (part ++ after))) :
    (Span.ofLength (span.start + byteLength before) (byteLength part)).Marks
        source part ∧
      span.start + byteLength before + byteLength part ≤ span.stop := by
  obtain ⟨front, back, rfl, rfl⟩ := h
  constructor
  · refine ⟨front ++ before, after ++ back, ?_, ?_⟩
    · simp only [List.append_assoc]
    · simp only [Span.ofLength, byteLength_append]
  · simp only [Span.ofLength, byteLength_append]
    omega

end Span.Marks

/-! ### Nodes of a statement -/

/-- The node is read from the text, or from what is left of it. -/
def Mention.IsReadIn (mention : Mention) (stop : ℕ) (text : List Char) : Prop :=
  ∃ start rest, start <:+ text ∧
    Grammar.mention? stop start = some (mention, rest)

namespace Mention.IsReadIn

variable {mention : Mention} {stop offset : ℕ} {text start : List Char}

theorem of_suffix (h : mention.IsReadIn stop start) (hstart : start <:+ text) :
    mention.IsReadIn stop text := by
  obtain ⟨inner, rest, hinner, hread⟩ := h
  exact ⟨inner, rest, hinner.trans hstart, hread⟩

/-- The span of a node is the place of the text that the node takes up. -/
theorem exists_split (h : mention.IsReadIn (offset + byteLength text) text) :
    ∃ before inside after, text = before ++ (inside ++ after) ∧
      mention.span =
        Span.ofLength (offset + byteLength before) (byteLength inside) ∧
      mention.id.toList <+: inside := by
  obtain ⟨start, rest, ⟨before, rfl⟩, hread⟩ := h
  obtain ⟨id, behind, -, rfl, ⟨definition, rfl⟩, hid, hspan⟩ :=
    Grammar.exists_id_of_mention? hread
  refine ⟨before, id ++ definition, rest, by simp only [List.append_assoc],
    ?_, ?_⟩
  · rw [hspan]
    simp only [Span.ofBounds, Span.ofLength, Span.mk.injEq, byteLength_append]
    omega
  · rw [hid, String.toList_ofList]
    exact List.prefix_append id definition

end Mention.IsReadIn

namespace Grammar

variable {stop : ℕ} {text rest : List Char}

theorem isReadIn_moreMentions (stop : ℕ) (text : List Char) :
    ∀ mention ∈ (moreMentions stop text).1, mention.IsReadIn stop text := by
  induction text using moreMentions.induct stop with
  | case1 text h =>
      rw [moreMentions_of_none h]
      exact List.forall_mem_nil _
  | case2 text mention rest h hlt others after hmore ih =>
      obtain ⟨start, hstart, hmention⟩ := exists_mention_of_nextMention? h
      have hrest := (leavesSuffix_mention? stop hmention).trans hstart
      rw [moreMentions_of_some h, List.forall_mem_cons]
      exact ⟨⟨start, rest, hstart, hmention⟩,
        fun other hother => (ih other hother).of_suffix hrest⟩
  | case3 text mention rest h hlt => exact absurd (length_nextMention?_lt h) hlt

theorem isReadIn_mentions? {mentions : List Mention}
    (h : mentions? stop text = some (mentions, rest)) :
    ∀ mention ∈ mentions, mention.IsReadIn stop text := by
  obtain ⟨⟨first, behind⟩, hfirst, h⟩ := Option.map_eq_some_iff.mp h
  obtain ⟨rfl, -⟩ := Prod.mk.inj h
  rw [List.forall_mem_cons]
  refine ⟨⟨text, behind, List.suffix_rfl, hfirst⟩, fun other hother => ?_⟩
  exact (isReadIn_moreMentions stop behind other hother).of_suffix
    (leavesSuffix_mention? stop hfirst)

theorem isReadIn_moreLinks (stop : ℕ) (text : List Char) :
    ∀ mention ∈ (moreLinks stop text).1.flatMap Prod.snd,
      mention.IsReadIn stop text := by
  induction text using moreLinks.induct stop with
  | case1 text h =>
      rw [moreLinks_of_none h]
      exact List.forall_mem_nil _
  | case2 text link rest h hlt others after hmore ih =>
      obtain ⟨start, hstart, hmentions⟩ := exists_mentions_of_nextLink? h
      have hrest := leavesSuffix_nextLink? stop h
      rw [moreLinks_of_some h, List.flatMap_cons, List.forall_mem_append]
      exact ⟨fun target htarget =>
          (isReadIn_mentions? hmentions target htarget).of_suffix hstart,
        fun other hother => (ih other hother).of_suffix hrest⟩
  | case3 text link rest h hlt => exact absurd (length_nextLink?_lt h) hlt

theorem isReadIn_chain? {chain : Chain}
    (h : chain? stop text = some (chain, rest)) :
    ∀ mention ∈ chain.mentions, mention.IsReadIn stop text := by
  obtain ⟨⟨head, behind⟩, hhead, h⟩ := Option.bind_eq_some_iff.mp h
  simp only [Option.ite_none_left_eq_some] at h
  obtain ⟨rfl, -⟩ := Prod.mk.inj (Option.some.inj h.2)
  rw [Chain.mentions, List.forall_mem_append]
  refine ⟨isReadIn_mentions? hhead, fun other hother => ?_⟩
  exact (isReadIn_moreLinks stop behind other hother).of_suffix
    (leavesSuffix_mentions? stop hhead)

theorem exists_of_whole? {α : Type} {result : Option (α × List Char)} {value : α}
    (h : whole? result = some value) : ∃ rest, result = some (value, rest) := by
  obtain ⟨⟨read, rest⟩, hread, h⟩ := Option.bind_eq_some_iff.mp h
  rw [Option.ite_none_right_eq_some] at h
  obtain rfl := Option.some.inj h.2
  exact ⟨rest, hread⟩

theorem exists_of_statement?_chain {offset : ℕ} {chain : Chain}
    (h : statement? text offset = some (.chain chain)) :
    ∃ rest, chain? (offset + byteLength text) text = some (chain, rest) := by
  have hforms : openGroup? text = none ∧ closeGroup? text = none ∧
      direction? text = none ∧
        whole? (chain? (offset + byteLength text) text) = some chain := by
    simpa [statement?, Option.orElse_eq_some] using h
  exact exists_of_whole? hforms.2.2.2

theorem exists_of_statement?_nodes {offset : ℕ} {mentions : List Mention}
    (h : statement? text offset = some (.nodes mentions)) :
    ∃ rest, mentions? (offset + byteLength text) text =
      some (mentions, rest) := by
  have hforms : openGroup? text = none ∧ closeGroup? text = none ∧
      direction? text = none ∧
        whole? (chain? (offset + byteLength text) text) = none ∧
          whole? (mentions? (offset + byteLength text) text) =
            some mentions := by
    simpa [statement?, Option.orElse_eq_some] using h
  exact exists_of_whole? hforms.2.2.2.2

end Grammar

/-- Every node that a statement names is read in its text. -/
theorem Entry.isReadIn_of_mem_mentions {fragment : Fragment} {mention : Mention}
    (h : mention ∈ (ofFragment fragment).mentions) :
    mention.IsReadIn (fragment.span.start + byteLength fragment.text)
      fragment.text := by
  unfold Entry.mentions ofFragment at h
  split at h
  next chain hchain =>
    obtain ⟨rest, hread⟩ := Grammar.exists_of_statement?_chain hchain
    exact Grammar.isReadIn_chain? hread mention h
  next mentions hnodes =>
    obtain ⟨rest, hread⟩ := Grammar.exists_of_statement?_nodes hnodes
    exact Grammar.isReadIn_mentions? hread mention h
  next => exact absurd h List.not_mem_nil

end Flowchart
