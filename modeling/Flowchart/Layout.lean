import Flowchart.Layered.Placement
import Flowchart.Layout.Containment
import Flowchart.Layout.Sizing

/-!
# Layout of a diagram

Every group that is not empty is laid out by itself, inner groups first, so that
a group sees the groups inside it as boxes of a known size.  Finally, the groups
and nodes of the top level are laid out.  Positions are relative to the group
around an item.
-/

namespace Flowchart

/-- A rectangle that has its place. -/
structure Box (α : Type) where
  position : Point α
  size : Size α
  deriving DecidableEq, Repr

/-- The inside of a group. -/
structure GroupLayout (α : Type) where
  /-- The size of the whole group, with header and padding. -/
  size : Size α
  /-- The nodes and groups directly inside, relative to the corner of the
  group. -/
  children : Keyed (Box α)
  deriving DecidableEq, Repr

structure DiagramLayout (α : Type) where
  /-- The groups that are not empty. -/
  groups : Keyed (GroupLayout α) := {}
  topLevel : Keyed (Box α) := {}
  deriving DecidableEq, Repr

/-- Why a diagram cannot be laid out. -/
inductive DiagramFault (α : Type) where
  | settings (fault : SettingsFault α)
  | layout (fault : LayoutFault)
  deriving DecidableEq, Repr

def DiagramFault.message : DiagramFault Float32 → String
  | .settings fault => "Config error: " ++ fault.message
  | .layout fault => "Layout error: " ++ fault.message

variable {α β : Type} [Scalar α] [Scalar β]

def Box.bounds (box : Box α) : Bounds α :=
  Bounds.ofTopLeft box.position box.size

omit [Scalar α] in
/-- The box of an item inside a group, or at the top level. -/
def DiagramLayout.boxIn? (layout : DiagramLayout α) (id : String) :
    Option String → Option (Box α)
  | some group => (layout.groups.find? group).bind (·.children.find? id)
  | none => layout.topLevel.find? id

namespace Layout

/-- A box to be placed. -/
abbrev Item (α : Type) :=
  String × Size α

/-- The place of the last item of the given id. -/
def lastIndex? (id : String) : List (Item α) → Option Nat
  | [] => none
  | item :: others =>
    match lastIndex? id others with
    | some index => some (index + 1)
    | none => if item.1 = id then some 0 else none

/-- The ends of an edge among the items of a scope. -/
def endsIn? (containment : Containment) (scope : Option String)
    (items : List (Item α)) (edge : Edge) : Option (Nat × Nat) := do
  let source ← containment.itemIn? scope edge.source
  let target ← containment.itemIn? scope edge.target
  return (← lastIndex? source items, ← lastIndex? target items)

omit [Scalar α] in
/-- Adds an arc unless the boxes are joined already, in whichever sense. -/
def addLink (graph : LayeredGraph α) (source target : Nat) : LayeredGraph α :=
  if graph.arcs.contains ⟨target, source⟩ then graph
  else graph.addArc source target

/-- The items of a scope and the edges between them. -/
def scopeGraph
    (add : LayeredGraph α → Nat → Nat → LayeredGraph α)
    (containment : Containment) (scope : Option String)
    (items : List (Item α)) (edges : List Edge) : LayeredGraph α :=
  (edges.filterMap (endsIn? containment scope items)).foldl
    (fun graph (source, target) => add graph source target)
    ⟨items.map Prod.snd, []⟩

omit [Scalar α] in
/-- The items at the places they were given, moved by the offset. -/
def placeItems (items : List (Item α)) (positions : List (Point α)) :
    Keyed (Box α) :=
  Keyed.ofList (items.zipWith (fun (id, size) position =>
    (id, ⟨position, size⟩)) positions)

/-- What is known while groups are laid out. -/
structure Context (α β : Type) where
  engine : Layered.Engine α β
  settings : LayoutSettings α
  diagram : Diagram
  containment : Containment
  nodeSizes : Keyed (Size α)

def Context.ofDiagram (engine : Layered.Engine α β)
    (settings : LayoutSettings α) (diagram : Diagram) : Context α β where
  engine := engine
  settings := settings
  diagram := diagram
  containment := diagram.containment
  nodeSizes := Keyed.ofList <| diagram.nodes.map fun node =>
    (node.id, settings.node.nodeSize node.label.toList node.shape)

namespace Context

omit [Scalar α] [Scalar β] in
/-- The node as an item, if there is one of this id. -/
def nodeItem? (context : Context α β) (id : String) : Option (Item α) :=
  (context.nodeSizes.find? id).map fun size => (id, size)

omit [Scalar β] in
/-- The size of a group: that of its layout, or that of an empty one. -/
def groupSize (context : Context α β) (layouts : Keyed (GroupLayout α))
    (id title : String) : Size α :=
  match layouts.find? id with
  | some layout => layout.size
  | none => context.settings.emptyGroupSize title

omit [Scalar β] in
/-- A group inside another one as an item. -/
def childItem? (context : Context α β) (layouts : Keyed (GroupLayout α))
    (child : Group) : Option (Item α) :=
  (context.diagram.group? child.id).map fun group =>
    (child.id, context.groupSize layouts child.id group.title)

omit [Scalar β] in
/-- The items of a group: its nodes and then the groups inside it. -/
def groupItems (context : Context α β) (layouts : Keyed (GroupLayout α))
    (group : Group) : List (Item α) :=
  group.members.filterMap context.nodeItem? ++
    (context.diagram.childGroups (some group.id)).filterMap
      (context.childItem? layouts)

omit [Scalar β] in
/-- The items of the top level: groups and then nodes. -/
def topItems (context : Context α β) (layouts : Keyed (GroupLayout α)) :
    List (Item α) :=
  (context.diagram.childGroups none).map (fun group =>
      (group.id, context.groupSize layouts group.id group.title)) ++
    context.diagram.topNodes.filterMap fun node => context.nodeItem? node.id

/-- Lays out the contents of a group and puts header and padding around
them. -/
def layoutGroup (context : Context α β) (group : Group)
    (items : List (Item α)) : Except LayoutFault (GroupLayout α) := do
  let settings := context.settings
  let graph := scopeGraph LayeredGraph.addArc context.containment
    (some group.id) items context.diagram.edges
  let placement ← graph.layout context.engine
    (context.diagram.directionOf group.id) settings.inner
  let insets := settings.groupInsets
  let positions :=
    placement.positions.map fun position => position.add insets.contentOrigin
  return {
    size := (placement.size.pad insets).max
      ⟨settings.titleWidth group.title, Scalar.zero⟩
    children := placeItems items positions }

/-- Lays out groups from the last to the first.  A group stands behind the
groups around it, so that whatever it contains comes earlier. -/
def layoutGroups (context : Context α β) :
    List Group → Except LayoutFault (Keyed (GroupLayout α))
  | [] => return {}
  | group :: others => do
    let layouts ← context.layoutGroups others
    let items := context.groupItems layouts group
    if items.isEmpty then return layouts
    else return layouts.insert group.id (← context.layoutGroup group items)

/-- Lays out the top level. -/
def layoutTop (context : Context α β) (layouts : Keyed (GroupLayout α)) :
    Except LayoutFault (Keyed (Box α)) := do
  let items := context.topItems layouts
  let graph := scopeGraph addLink context.containment none items
    context.diagram.edges
  let placement ← graph.layout context.engine context.diagram.direction
    context.settings.outer
  return placeItems items placement.positions

end Context

end Layout

/-- Lays out a diagram, if the settings are sound. -/
def Diagram.layout (engine : Layered.Engine α β) (settings : LayoutSettings α)
    (diagram : Diagram) : Except (DiagramFault α) (DiagramLayout α) :=
  match settings.fault? with
  | some fault => .error (.settings fault)
  | none =>
    let context := Layout.Context.ofDiagram engine settings diagram
    Except.mapError DiagramFault.layout do
      let groups ← context.layoutGroups diagram.groups
      let topLevel ← context.layoutTop groups
      return ⟨groups.reverse, topLevel⟩

end Flowchart
