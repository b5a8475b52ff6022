import Flowchart.Keyed
import Mathlib.Data.List.Nodup

/-!
# Keyed values with distinct ids

As long as every id comes only once, a keyed map is just the list of its
entries: an insertion appends, the entries of a list stay as they are, and
looking an id up finds the one entry that has it.
-/

namespace Flowchart.Keyed

variable {α : Type}

theorem put_of_not_mem {id : String} {value : α}
    {entries : List (String × α)} (h : id ∉ entries.map Prod.fst) :
    put id value entries = entries ++ [(id, value)] := by
  induction entries with
  | nil => rfl
  | cons entry others ih =>
      simp only [List.map_cons, List.mem_cons, not_or] at h
      simp [put, Ne.symm h.1, ih h.2]

theorem entries_insert_of_not_mem {map : Keyed α} {id : String} (value : α)
    (h : id ∉ map.ids) :
    (map.insert id value).entries = map.entries ++ [(id, value)] :=
  put_of_not_mem h

theorem ids_insert_of_not_mem {map : Keyed α} {id : String} (value : α)
    (h : id ∉ map.ids) : (map.insert id value).ids = map.ids ++ [id] := by
  simp [ids, entries_insert_of_not_mem value h]

/-- Entries with new and distinct ids are appended one after the other. -/
private theorem entries_insertAll {map : Keyed α}
    {entries : List (String × α)}
    (h : (map.ids ++ entries.map Prod.fst).Nodup) :
    (entries.foldl (fun map entry => map.insert entry.1 entry.2)
      map).entries = map.entries ++ entries := by
  induction entries generalizing map with
  | nil => simp
  | cons entry others ih =>
      have hfree : entry.1 ∉ map.ids := by
        intro hmem
        rw [List.map_cons, List.nodup_middle, List.nodup_cons] at h
        exact h.1 (List.mem_append_left _ hmem)
      rw [List.foldl_cons, ih, entries_insert_of_not_mem entry.2 hfree]
      · simp
      · rw [ids_insert_of_not_mem entry.2 hfree]
        simpa using h

theorem entries_ofList {entries : List (String × α)}
    (h : (entries.map Prod.fst).Nodup) :
    (ofList entries).entries = entries := by
  have hempty : (({} : Keyed α).ids ++ entries.map Prod.fst).Nodup := h
  exact entries_insertAll hempty

theorem put_subset (id : String) (value : α) (entries : List (String × α)) :
    put id value entries ⊆ entries ++ [(id, value)] := by
  induction entries with
  | nil => exact List.Subset.refl _
  | cons entry others ih =>
      rw [put]
      split_ifs
      · intro other hother
        rcases List.mem_cons.mp hother with rfl | hmem
        · simp
        · exact List.mem_append_left _ (List.mem_cons_of_mem _ hmem)
      · exact List.cons_subset_cons entry ih

/-- Whichever of several entries with one id counts, it is one of them. -/
theorem entries_ofList_subset (entries : List (String × α)) :
    (ofList entries).entries ⊆ entries := by
  have hall : ∀ (map : Keyed α), (entries.foldl
      (fun map entry => map.insert entry.1 entry.2) map).entries ⊆
        map.entries ++ entries := by
    induction entries with
    | nil => intro map; simp
    | cons entry others ih =>
        intro map
        rw [List.foldl_cons, ← List.singleton_append, ← List.append_assoc]
        exact List.Subset.trans (ih _)
          (List.append_subset.mpr ⟨List.Subset.trans (put_subset _ _ _)
            (List.subset_append_left _ _), List.subset_append_right _ _⟩)
  exact hall {}

theorem ids_ofList {entries : List (String × α)}
    (h : (entries.map Prod.fst).Nodup) :
    (ofList entries).ids = entries.map Prod.fst := by
  rw [ids, entries_ofList h]

theorem ids_reverse (map : Keyed α) : map.reverse.ids = map.ids.reverse := by
  simp [reverse, ids]

theorem lookup_eq_some_iff {κ : Type} [BEq κ] [LawfulBEq κ] {id : κ}
    {value : α} {entries : List (κ × α)} (h : (entries.map Prod.fst).Nodup) :
    entries.lookup id = some value ↔ (id, value) ∈ entries := by
  induction entries with
  | nil => simp
  | cons entry others ih =>
      obtain ⟨key, old⟩ := entry
      rw [List.map_cons, List.nodup_cons] at h
      by_cases hkey : id = key
      · subst hkey
        have hother : (id, value) ∉ others := by
          intro hmem
          exact h.1 (List.mem_map.mpr ⟨_, hmem, rfl⟩)
        simp [hother, eq_comm]
      · simp [List.lookup_cons, beq_false_of_ne hkey, hkey, ih h.2]

theorem find?_eq_some_iff {map : Keyed α} {id : String} {value : α}
    (h : map.ids.Nodup) :
    map.find? id = some value ↔ (id, value) ∈ map.entries :=
  lookup_eq_some_iff h

theorem exists_find?_of_mem_ids {map : Keyed α} {id : String}
    (hnodup : map.ids.Nodup) (h : id ∈ map.ids) :
    ∃ value, map.find? id = some value := by
  obtain ⟨⟨key, value⟩, hmem, rfl⟩ := List.mem_map.mp h
  exact ⟨value, (find?_eq_some_iff hnodup).mpr hmem⟩

theorem mem_entries_of_find? {map : Keyed α} {id : String} {value : α}
    (h : map.find? id = some value) : (id, value) ∈ map.entries := by
  obtain ⟨before, after, hentries, -⟩ := List.lookup_eq_some_iff.mp h
  rw [hentries]
  exact List.mem_append_right _ List.mem_cons_self

theorem find?_reverse {map : Keyed α} (h : map.ids.Nodup) (id : String) :
    map.reverse.find? id = map.find? id := by
  have hreverse : map.reverse.ids.Nodup := by
    rw [ids_reverse]
    exact List.nodup_reverse.mpr h
  apply Option.ext
  intro value
  rw [find?_eq_some_iff hreverse, find?_eq_some_iff h, reverse,
    List.mem_reverse]

end Flowchart.Keyed
