import Flowchart.Proofs.BodyStatements

/-!
# References to nodes

Nodes are named again and again, with and without a definition, inside of groups
and outside.  Read as a whole, the statements of a body give every node the
first definition that any of them has for it and the group around the first one
that names it inside of a group.
-/

namespace Flowchart

/-- All nodes that the statement names, from left to right. -/
def Entry.mentions (entry : Entry) : List Mention :=
  match entry.statement with
  | some (.chain chain) => chain.mentions
  | some (.nodes mentions) => mentions
  | _ => []

/-- A place where a node is named, with the number of the innermost group that
is open there. -/
structure Reference where
  mention : Mention
  around : Option ℕ

namespace Body

def references (body : List Entry) : List Reference :=
  (contexts body).flatMap fun context =>
    context.2.mentions.map fun mention => ⟨mention, innermost? context.1⟩

def referencesTo (id : String) (references : List Reference) : List Reference :=
  references.filter fun reference => reference.mention.id = id

/-- The first definition of the node. -/
def definition? (references : List Reference) (id : String) :
    Option Definition :=
  (referencesTo id references).findSome? fun reference =>
    reference.mention.definition

/-- The number of the group that is open where the node is first named inside of
any. -/
def home? (references : List Reference) (id : String) : Option ℕ :=
  (referencesTo id references).findSome? Reference.around

/-- The ids of the nodes, in the order in which they are first named. -/
def nodeIds (groupIds : List String) (references : List Reference) :
    List String :=
  (references.map fun reference => reference.mention.id).eraseDups.filter
    fun id => id ∉ groupIds

/-- The node that the references of its id describe. -/
def nodeOf (groupIds : List String) (references : List Reference)
    (id : String) : Node where
  id := id
  label :=
    match definition? references id with
    | some definition =>
      if definition.label.isEmpty then id else definition.label
    | none => id
  shape :=
    match definition? references id with
    | some definition => definition.shape
    | none => .rectangle
  group := (home? references id).bind (groupIds[·]?)

/-- The note on a reference to a node that has another definition than the first
one. -/
def redefinition? (groupIds : List String) (references : List Reference)
    (reference : Reference) : Option Finding := do
  let definition ← reference.mention.definition
  if reference.mention.id ∉ groupIds ∧
      definition? references reference.mention.id ≠ some definition then
    some (.redefined reference.mention.id reference.mention.span)
  else none

end Body

/-- The notes on nodes that are defined a second time, and differently. -/
def redefinitions (findings : List Finding) : List Finding :=
  findings.filter fun finding => finding.code = .redefinition

@[simp] theorem redefinitions_append (findings notes : List Finding) :
    redefinitions (findings ++ notes) =
      redefinitions findings ++ redefinitions notes :=
  List.filter_append _ _

namespace Body

/-! ### One more reference -/

theorem references_concat (body : List Entry) (entry : Entry) :
    references (body ++ [entry]) =
      references body ++
        entry.mentions.map fun mention => ⟨mention, innermost? body⟩ := by
  rw [references, contexts_append, List.flatMap_append]
  simp [references, contextsFrom]

variable {groupIds : List String} {references : List Reference}

theorem definition?_concat (references : List Reference) (last : Reference)
    (id : String) :
    definition? (references ++ [last]) id =
      (definition? references id).or
        (if last.mention.id = id then last.mention.definition else none) := by
  rw [definition?, referencesTo, List.filter_append, List.findSome?_append,
    List.filter_singleton]
  by_cases hid : last.mention.id = id <;>
    simp [definition?, referencesTo, hid]

theorem home?_concat (references : List Reference) (last : Reference)
    (id : String) :
    home? (references ++ [last]) id =
      (home? references id).or
        (if last.mention.id = id then last.around else none) := by
  rw [home?, referencesTo, List.filter_append, List.findSome?_append,
    List.filter_singleton]
  by_cases hid : last.mention.id = id <;>
    simp [home?, referencesTo, hid]

theorem mem_nodeIds {id : String} :
    id ∈ nodeIds groupIds references ↔
      (∃ reference ∈ references, reference.mention.id = id) ∧
        id ∉ groupIds := by
  simp [nodeIds]

private theorem eraseDups_concat (ids : List String) (id : String) :
    (ids ++ [id]).eraseDups =
      ids.eraseDups ++ if id ∈ ids then [] else [id] := by
  rw [List.eraseDups_append, List.removeAll, List.filter_singleton]
  by_cases hid : id ∈ ids <;> simp [hid, List.eraseDups_cons]

theorem nodeIds_concat_of_mem {last : Reference}
    (h : last.mention.id ∈ groupIds ∨
      last.mention.id ∈ nodeIds groupIds references) :
    nodeIds groupIds (references ++ [last]) = nodeIds groupIds references := by
  rw [nodeIds, List.map_append, List.map_singleton, eraseDups_concat,
    List.filter_append, nodeIds]
  rcases h with hgroup | hnode
  · by_cases hid : last.mention.id ∈ references.map (·.mention.id) <;>
      simp [hid, hgroup]
  · have hid := (mem_nodeIds.mp hnode).1
    simp [hid]

theorem nodeIds_concat_of_not_mem {last : Reference}
    (hgroup : last.mention.id ∉ groupIds)
    (hnode : last.mention.id ∉ nodeIds groupIds references) :
    nodeIds groupIds (references ++ [last]) =
      nodeIds groupIds references ++ [last.mention.id] := by
  have hid : last.mention.id ∉ references.map (·.mention.id) := by
    intro hmem
    exact hnode (mem_nodeIds.mpr ⟨by simpa using hmem, hgroup⟩)
  rw [nodeIds, List.map_append, List.map_singleton, eraseDups_concat,
    if_neg hid, List.filter_append, nodeIds]
  simp [hgroup]

theorem definition?_home?_eq_none {id : String}
    (h : ∀ reference ∈ references, reference.mention.id ≠ id) :
    definition? references id = none ∧ home? references id = none := by
  have hnone : referencesTo id references = [] := by
    simpa [referencesTo, List.filter_eq_nil_iff] using h
  simp [definition?, home?, hnone]

theorem isSome_definition? {reference : Reference}
    (h : reference ∈ references) {definition : Definition}
    (hdefinition : reference.mention.definition = some definition) :
    (definition? references reference.mention.id).isSome := by
  rw [definition?, List.findSome?_isSome_iff]
  refine ⟨reference, ?_, by simp [hdefinition]⟩
  simpa [referencesTo] using h

theorem redefinition?_concat (last : Reference) {reference : Reference}
    (h : reference ∈ references) :
    redefinition? groupIds (references ++ [last]) reference =
      redefinition? groupIds references reference := by
  unfold redefinition?
  cases hdefinition : reference.mention.definition with
  | none => rfl
  | some definition =>
      obtain ⟨first, hfirst⟩ :=
        Option.isSome_iff_exists.mp (isSome_definition? h hdefinition)
      rw [definition?_concat, hfirst, Option.some_or]

/-- The node of a draft that the references of its id describe. -/
def draftNodeOf (groupIds : List String) (references : List Reference)
    (id : String) : Draft.Node where
  id := id
  label := ((definition? references id).map Definition.label).getD id
  shape := ((definition? references id).map Definition.shape).getD .rectangle
  group := (home? references id).bind (groupIds[·]?)
  isDefined := (definition? references id).isSome

theorem draftNodeOf_congr {others : List Reference} {id : String}
    (hdefinition : definition? references id = definition? others id)
    (hhome : home? references id = home? others id) :
    draftNodeOf groupIds references id = draftNodeOf groupIds others id := by
  rw [draftNodeOf, draftNodeOf, hdefinition, hhome]

theorem draftNodeOf_concat_of_ne {last : Reference} {id : String}
    (h : id ≠ last.mention.id) :
    draftNodeOf groupIds (references ++ [last]) id =
      draftNodeOf groupIds references id := by
  simp [draftNodeOf, definition?_concat, home?_concat, h.symm]

theorem lt_of_mem_home? {count : ℕ}
    (h : ∀ reference ∈ references, ∀ number ∈ reference.around, number < count)
    {id : String} {number : ℕ} (hhome : home? references id = some number) :
    number < count := by
  obtain ⟨reference, hmem, haround⟩ := List.exists_of_findSome?_eq_some hhome
  exact h reference (List.mem_of_mem_filter hmem) number haround

/-! ### One more group -/

theorem nodeIds_append {id : String}
    (h : ∀ reference ∈ references, reference.mention.id ≠ id) :
    nodeIds (groupIds ++ [id]) references = nodeIds groupIds references := by
  apply List.filter_congr
  intro other hother
  rw [List.mem_eraseDups, List.mem_map] at hother
  obtain ⟨reference, hreference, rfl⟩ := hother
  simp [h reference hreference]

theorem draftNodeOf_append
    (h : ∀ reference ∈ references,
      ∀ number ∈ reference.around, number < groupIds.length)
    (more : List String) (id : String) :
    draftNodeOf (groupIds ++ more) references id =
      draftNodeOf groupIds references id := by
  unfold draftNodeOf
  cases hhome : home? references id with
  | none => rfl
  | some number =>
      rw [Option.bind_some, Option.bind_some,
        List.getElem?_append_left (lt_of_mem_home? h hhome)]

theorem redefinition?_append (references : List Reference)
    {reference : Reference} {id : String} (h : reference.mention.id ≠ id) :
    redefinition? (groupIds ++ [id]) references reference =
      redefinition? groupIds references reference := by
  simp [redefinition?, h]

theorem finish_draftNodeOf (groupIds : List String)
    (references : List Reference) (id : String) :
    (draftNodeOf groupIds references id).finish =
      nodeOf groupIds references id := by
  cases hdefinition : definition? references id <;>
    simp [draftNodeOf, nodeOf, Draft.Node.finish, hdefinition]

end Body

end Flowchart
