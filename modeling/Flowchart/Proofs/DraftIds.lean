import Flowchart.Assembly
import Mathlib.Data.List.Nodup
import Std.Data.String.ToNat

/-!
# Ids of a draft

Groups and nodes of a draft share their ids.  A group that asks for a taken id
gets a number behind it: the search for one only looks at finitely many numbers,
but these are more than there are ids, so that it ends where an unbounded search
would.
-/

namespace Flowchart.Draft

/-! ### Ids -/

def groupIds (draft : Draft) : List String :=
  draft.groups.map (·.id)

def ids (draft : Draft) : List String :=
  draft.groupIds ++ draft.nodes.map (·.id)

def inside (draft : Draft) (group : String) : List String :=
  (draft.nodes.filter (·.group = some group)).map (·.id)

theorem hasGroup_iff {draft : Draft} {id : String} :
    draft.hasGroup id = true ↔ id ∈ draft.groupIds := by
  simp [hasGroup, groupIds]

theorem isTaken_iff {draft : Draft} {id : String} :
    draft.isTaken id = true ↔ id ∈ draft.ids := by
  simp [isTaken, hasGroup, hasNode, ids, groupIds]

theorem isTaken_eq_false_iff {draft : Draft} {id : String} :
    draft.isTaken id = false ↔ id ∉ draft.ids := by
  rw [← isTaken_iff, Bool.not_eq_true]

theorem mem_ids_of_mem_groupIds {draft : Draft} {id : String}
    (h : id ∈ draft.groupIds) : id ∈ draft.ids :=
  List.mem_append_left _ h

theorem length_ids (draft : Draft) :
    draft.ids.length = draft.nodes.length + draft.groups.length := by
  simp [ids, groupIds, Nat.add_comm]

/-! ### Free ids -/

theorem numbered_injective (id : String) :
    Function.Injective (numbered id) := by
  intro first second h
  have hdigits : toString first = toString second :=
    (String.append_right_inj _).mp h
  exact Nat.repr_injective hdigits

/-- Of all numbers from 2 on, this is the first one that makes a free id. -/
structure IsFirstFree (draft : Draft) (requested : String)
    (number : ℕ) : Prop where
  two_le : 2 ≤ number
  free : draft.isTaken (numbered requested number) = false
  taken_of_lt : ∀ smaller, 2 ≤ smaller → smaller < number →
    draft.isTaken (numbered requested smaller) = true

/-- Numbered ids are distinct, so there are more of them than taken ids. -/
theorem exists_numbered_free (draft : Draft) (requested : String) :
    ∃ index < draft.nodes.length + draft.groups.length + 1,
      draft.isTaken (numbered requested (index + 2)) = false := by
  by_contra! hall
  let candidates :=
    (List.range (draft.nodes.length + draft.groups.length + 1)).map
      fun index => numbered requested (index + 2)
  have hnodup : candidates.Nodup := by
    apply List.Nodup.map _ List.nodup_range
    intro first second h
    exact Nat.add_right_cancel (numbered_injective requested h)
  have hsubset : candidates ⊆ draft.ids := by
    intro id hid
    obtain ⟨index, hindex, rfl⟩ := List.mem_map.mp hid
    rw [← isTaken_iff]
    simpa using hall index (List.mem_range.mp hindex)
  have hlength := hnodup.length_le_of_subset hsubset
  rw [length_ids] at hlength
  simp only [candidates, List.length_map, List.length_range] at hlength
  omega

theorem exists_freeId?_eq (draft : Draft) (requested : String) :
    ∃ number, draft.IsFirstFree requested number ∧
      draft.freeId? requested = some (numbered requested number) := by
  obtain ⟨free, hfree, hfreeId⟩ := draft.exists_numbered_free requested
  let isFree := fun index => !draft.isTaken (numbered requested (index + 2))
  let count := draft.nodes.length + draft.groups.length + 1
  have hsome : ((List.range count).find? isFree).isSome := by
    rw [List.find?_isSome]
    exact ⟨free, List.mem_range.mpr hfree, by simp [isFree, hfreeId]⟩
  obtain ⟨index, hindex⟩ := Option.isSome_iff_exists.mp hsome
  obtain ⟨hindexFree, -, hbefore⟩ := List.find?_range_eq_some.mp hindex
  refine ⟨index + 2, ⟨by omega, by simpa [isFree] using hindexFree, ?_⟩, ?_⟩
  · intro smaller htwo hlt
    have htaken := hbefore (smaller - 2) (by omega)
    rw [show smaller = smaller - 2 + 2 by omega]
    simpa [isFree] using htaken
  · simp only [freeId?, List.find?_map]
    exact congrArg (Option.map _) hindex

theorem claimId_of_free {draft : Draft} {requested : String} (span : Span)
    (h : draft.isTaken requested = false) :
    draft.claimId requested span = (requested, draft) := by
  simp [claimId, h]

theorem claimId_of_taken {draft : Draft} {requested : String} (span : Span)
    (h : draft.isTaken requested = true) :
    ∃ number, draft.IsFirstFree requested number ∧
      draft.claimId requested span =
        (numbered requested number,
          draft.report
            (.renamed requested (numbered requested number) span)) := by
  obtain ⟨number, hfirst, hid⟩ := draft.exists_freeId?_eq requested
  exact ⟨number, hfirst, by simp [claimId, h, hid]⟩

end Flowchart.Draft
