/-!
# Keyed values

Finite maps from ids that keep the order in which the ids came.  A value for an
id that is already there takes the place of the old one.
-/

namespace Flowchart

/-- Values by their ids. -/
structure Keyed (α : Type) where
  entries : List (String × α) := []
  deriving DecidableEq, Repr

namespace Keyed

variable {α : Type}

/-- Puts an entry into a list: in place of the first one with its id, or at the
end. -/
def put (id : String) (value : α) : List (String × α) → List (String × α)
  | [] => [(id, value)]
  | entry :: others =>
    if entry.1 = id then (id, value) :: others
    else entry :: put id value others

def insert (map : Keyed α) (id : String) (value : α) : Keyed α :=
  ⟨put id value map.entries⟩

/-- The map of the entries; of two with the same id, the later one counts. -/
def ofList (entries : List (String × α)) : Keyed α :=
  entries.foldl (fun map entry => map.insert entry.1 entry.2) {}

def find? (map : Keyed α) (id : String) : Option α :=
  map.entries.lookup id

def ids (map : Keyed α) : List String :=
  map.entries.map Prod.fst

/-- The same values in the opposite order. -/
def reverse (map : Keyed α) : Keyed α :=
  ⟨map.entries.reverse⟩

theorem lookup_put (id other : String) (value : α)
    (entries : List (String × α)) :
    (put id value entries).lookup other =
      if other = id then some value else entries.lookup other := by
  induction entries with
  | nil =>
    by_cases h : other = id
    · simp [put, h]
    · simp [put, List.lookup_cons, beq_false_of_ne h, h]
  | cons entry others ih =>
    obtain ⟨key, old⟩ := entry
    by_cases hid : key = id
    · subst hid
      by_cases h : other = key
      · simp [put, h]
      · simp [put, List.lookup_cons, beq_false_of_ne h, h]
    · by_cases h : other = key
      · subst h
        simp [put, hid]
      · simp [put, List.lookup_cons, beq_false_of_ne h, hid, ih]

theorem find?_insert (map : Keyed α) (id other : String) (value : α) :
    (map.insert id value).find? other =
      if other = id then some value else map.find? other :=
  lookup_put id other value map.entries

@[simp] theorem find?_empty (id : String) : ({} : Keyed α).find? id = none :=
  rfl

end Keyed

end Flowchart
