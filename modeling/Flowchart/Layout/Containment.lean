import Flowchart.Diagram
import Flowchart.Keyed

/-!
# What lies in what

A scope is a group or the top level.  Seen from a scope, an id stands for the
item directly inside that scope which is, or contains, the thing of that id.
-/

namespace Flowchart

/-- The group around each node and each group; those of the top level have
none. -/
abbrev Containment :=
  Keyed (Option String)

namespace Containment

/-- Climbs from an item and the group around it until that group is the
scope. -/
def climb (containment : Containment) (scope : Option String) :
    Nat → String → Option String → Option String
  | 0, _, _ => none
  | fuel + 1, item, around =>
    if around = scope then some item
    else
      match around with
      | none => none
      | some group =>
        containment.climb scope fuel group (containment.find? group).join

/-- The item of the scope that is, or contains, the thing of the given id.
There is none for unknown ids, for things outside of the scope and for the
scope itself.  A chain of containers is no longer than the number of ids. -/
def itemIn? (containment : Containment) (scope : Option String)
    (id : String) : Option String :=
  match containment.find? id with
  | none => none
  | some around =>
    containment.climb scope (containment.entries.length + 2) id around

end Containment

namespace Diagram

def containment (diagram : Diagram) : Containment :=
  Keyed.ofList <|
    diagram.groups.map (fun group => (group.id, group.parent)) ++
      diagram.nodes.map (fun node => (node.id, node.group))

/-- The groups directly inside the scope. -/
def childGroups (diagram : Diagram) (scope : Option String) : List Group :=
  diagram.groups.filter (·.parent == scope)

/-- The nodes directly at the top level. -/
def topNodes (diagram : Diagram) : List Node :=
  diagram.nodes.filter (·.group.isNone)

/-- The direction of a group, or else of the nearest group around it that has
one. -/
def ownDirection? (diagram : Diagram) : Nat → String → Option Direction
  | 0, _ => none
  | fuel + 1, id => do
    let group ← diagram.group? id
    match group.direction with
    | some direction => return direction
    | none => diagram.ownDirection? fuel (← group.parent)

/-- The direction in which the contents of a group are laid out. -/
def directionOf (diagram : Diagram) (group : String) : Direction :=
  (diagram.ownDirection? diagram.groups.length group).getD diagram.direction

end Diagram

end Flowchart
