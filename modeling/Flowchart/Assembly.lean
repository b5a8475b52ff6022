import Flowchart.Diagnostic
import Flowchart.Label
import Flowchart.Statement.Grammar
import Flowchart.Statement.Fragment

/-!
# Assembling a diagram

Statements are applied one after the other to a draft of the diagram.  The
draft keeps the groups in the order in which they were opened, the nodes in the
order in which they were first named, and the groups that are still open.
Whatever is worth a remark becomes a finding.
-/

namespace Flowchart

open Text

/-- A remark on the source of a diagram. -/
inductive Finding where
  /-- The statement has none of the known forms. -/
  | unrecognized (text : String) (span : Span)
  /-- The statement has no effect on the graph. -/
  | unsupported (keyword : String) (span : Span)
  /-- An `end` closes nothing. -/
  | unmatchedEnd (span : Span)
  /-- The group was never closed. -/
  | unterminated (group : String) (span : Span)
  /-- The id was taken, and the group got another one. -/
  | renamed (requested given : String) (span : Span)
  /-- The node was defined a second time, and differently. -/
  | redefined (node : String) (span : Span)
  deriving DecidableEq, Repr

namespace Finding

def code : Finding → Code
  | .unrecognized .. => .unrecognized
  | .unsupported .. => .unsupported
  | .unmatchedEnd .. => .unmatchedEnd
  | .unterminated .. => .unterminated
  | .renamed .. => .idCollision
  | .redefined .. => .redefinition

def span : Finding → Span
  | .unrecognized _ span => span
  | .unsupported _ span => span
  | .unmatchedEnd span => span
  | .unterminated _ span => span
  | .renamed _ _ span => span
  | .redefined _ span => span

def severity : Finding → Severity
  | .redefined .. => .note
  | _ => .warning

def message : Finding → String
  | .unrecognized text _ => "unrecognized statement `" ++ text ++ "`"
  | .unsupported keyword _ => "`" ++ keyword ++ "` statement ignored"
  | .unmatchedEnd _ => "`end` without an open subgraph"
  | .unterminated group _ => "subgraph `" ++ group ++ "` is never closed"
  | .renamed requested _ _ =>
    "group id `" ++ requested ++ "` is already in use"
  | .redefined node _ =>
    "node `" ++ node ++ "` redefined; the first definition is kept"

def help : Finding → Option String
  | .unterminated .. =>
    some "add `end` after the last statement of the subgraph"
  | .renamed _ given _ => some ("the group was renamed to `" ++ given ++ "`")
  | _ => none

def diagnostic (finding : Finding) : Diagnostic where
  severity := finding.severity
  message := finding.message
  code := some finding.code
  span := some finding.span
  help := finding.help

end Finding

/-- A node of a diagram that is being assembled. -/
structure Draft.Node where
  id : String
  label : String
  shape : Shape
  group : Option String
  /-- The node has been given a shape and a label. -/
  isDefined : Bool
  deriving DecidableEq, Repr

/-- A group of a diagram that is being assembled, and where it was opened. -/
structure Draft.Group extends Flowchart.Group where
  span : Span
  deriving DecidableEq, Repr

/-- A diagram that is being assembled. -/
structure Draft where
  direction : Direction
  nodes : List Draft.Node := []
  edges : List Edge := []
  groups : List Draft.Group := []
  /-- The ids of the groups that are open, innermost first. -/
  stack : List String := []
  findings : List Finding := []
  deriving DecidableEq, Repr

namespace Draft

def report (draft : Draft) (finding : Finding) : Draft :=
  { draft with findings := draft.findings ++ [finding] }

def node? (draft : Draft) (id : String) : Option Draft.Node :=
  draft.nodes.find? (·.id == id)

def hasNode (draft : Draft) (id : String) : Bool :=
  draft.nodes.any (·.id == id)

def hasGroup (draft : Draft) (id : String) : Bool :=
  draft.groups.any (·.id == id)

/-- Nodes and groups share their ids. -/
def isTaken (draft : Draft) (id : String) : Bool :=
  draft.hasGroup id || draft.hasNode id

/-- Changes the node of the given id. -/
def updateNode (draft : Draft) (id : String)
    (change : Draft.Node → Draft.Node) : Draft :=
  { draft with
    nodes := draft.nodes.map fun node =>
      if node.id = id then change node else node }

/-- Changes the group of the given id. -/
def updateGroup (draft : Draft) (id : String)
    (change : Draft.Group → Draft.Group) : Draft :=
  { draft with
    groups := draft.groups.map fun group =>
      if group.id = id then change group else group }

/-- The id with a number behind it. -/
def numbered (id : String) (number : Nat) : String :=
  id ++ "_" ++ toString number

/-- The first free id among the requested one with the numbers from 2 on.  One
number more than there are ids is enough. -/
def freeId? (draft : Draft) (requested : String) : Option String :=
  ((List.range (draft.nodes.length + draft.groups.length + 1)).map
    fun index => numbered requested (index + 2)).find? (!draft.isTaken ·)

/-- Finds an id for a group, and reports when it is not the requested one. -/
def claimId (draft : Draft) (requested : String) (span : Span) :
    String × Draft :=
  if draft.isTaken requested then
    let given := (draft.freeId? requested).getD requested
    (given, draft.report (.renamed requested given span))
  else (requested, draft)

def openGroup (draft : Draft) (header : GroupHeader) (span : Span) : Draft :=
  let title := (header.title <|> header.id).getD ""
  let requested :=
    header.id.getD (String.ofList (Label.slug title.toList))
  let (id, draft) := draft.claimId requested span
  let group : Draft.Group :=
    { id := id, title := title, members := [], parent := draft.stack.head?,
      direction := none, span := span }
  { draft with
    groups := draft.groups ++ [group]
    stack := id :: draft.stack }

def closeGroup (draft : Draft) (span : Span) : Draft :=
  match draft.stack with
  | [] => draft.report (.unmatchedEnd span)
  | _ :: outer => { draft with stack := outer }

/-- Sets the direction of the innermost open group, or of the diagram. -/
def setDirection (draft : Draft) (direction : Direction) : Draft :=
  match draft.stack with
  | [] => { draft with direction := direction }
  | group :: _ =>
    draft.updateGroup group ({ · with direction := some direction })

/-- Lists a node as a member of the group. -/
def addMember (draft : Draft) (group node : String) : Draft :=
  draft.updateGroup group fun entry =>
    { entry with members := entry.members ++ [node] }

/-- Takes in a definition of a node that is already there.  The first one
counts; a later one that differs is reported. -/
def define (draft : Draft) (node : Draft.Node) (definition : Definition)
    (span : Span) : Draft :=
  if !node.isDefined then
    draft.updateNode node.id fun entry =>
      { entry with
        label := definition.label
        shape := definition.shape
        isDefined := true }
  else if node.label ≠ definition.label ∨ node.shape ≠ definition.shape then
    draft.report (.redefined node.id span)
  else draft

/-- Puts a node that lies in no group into the innermost open one. -/
def adopt (draft : Draft) (node : Draft.Node) : Draft :=
  match node.group, draft.stack with
  | none, group :: _ =>
    (draft.updateNode node.id ({ · with group := some group })).addMember
      group node.id
  | _, _ => draft

/-- Adds the node that is named for the first time. -/
def addNode (draft : Draft) (mention : Mention) : Draft :=
  let node : Draft.Node :=
    match mention.definition with
    | some definition =>
      ⟨mention.id, definition.label, definition.shape, draft.stack.head?, true⟩
    | none =>
      ⟨mention.id, mention.id, .rectangle, draft.stack.head?, false⟩
  let draft :=
    match draft.stack with
    | [] => draft
    | group :: _ => draft.addMember group mention.id
  { draft with nodes := draft.nodes ++ [node] }

/-- Takes in that a node is named.  The id of a group stands for the group and
makes no node. -/
def mention (draft : Draft) (mention : Mention) : Draft :=
  match draft.node? mention.id with
  | some node =>
    let draft :=
      match mention.definition with
      | some definition => draft.define node definition mention.span
      | none => draft
    draft.adopt node
  | none =>
    if draft.hasGroup mention.id then draft else draft.addNode mention

def mentions (draft : Draft) (mentions : List Mention) : Draft :=
  mentions.foldl Draft.mention draft

/-- An edge from every source to every target. -/
def edgesBetween (link : Link) (sources targets : List Mention) :
    List Edge :=
  sources.flatMap fun source =>
    targets.map fun target =>
      ⟨source.id, target.id, link.label, link.connector⟩

/-- Follows the links from the given nodes on. -/
def addLinks (draft : Draft) (sources : List Mention) :
    List (Link × List Mention) → Draft
  | [] => draft
  | (link, targets) :: rest =>
    let draft := draft.mentions targets
    { draft with
      edges := draft.edges ++ edgesBetween link sources targets }.addLinks
        targets rest

def addChain (draft : Draft) (chain : Chain) : Draft :=
  (draft.mentions chain.head).addLinks chain.head chain.links

/-- Applies the statement that stands at the given place. -/
def apply (draft : Draft) (statement : Statement) (span : Span) : Draft :=
  match statement with
  | .openGroup header => draft.openGroup header span
  | .closeGroup => draft.closeGroup span
  | .direction direction => draft.setDirection direction
  | .unsupported keyword => draft.report (.unsupported keyword span)
  | .chain chain => draft.addChain chain
  | .nodes mentions => draft.mentions mentions

/-- Reads a statement and applies it. -/
def read (draft : Draft) (fragment : Fragment) : Draft :=
  match Grammar.statement? fragment.text fragment.span.start with
  | some statement => draft.apply statement fragment.span
  | none =>
    draft.report
      (.unrecognized (String.ofList fragment.text) fragment.span)

/-- Reports the groups that are still open, innermost first. -/
def closeAll (draft : Draft) : Draft :=
  let missing := draft.stack.filterMap fun id =>
    (draft.groups.find? (·.id == id)).map fun group =>
      Finding.unterminated group.id group.span
  { draft with stack := [], findings := draft.findings ++ missing }

/-- The node as it is shown; an empty label gives way to the id. -/
def Node.finish (node : Draft.Node) : Flowchart.Node :=
  ⟨node.id, if node.label.isEmpty then node.id else node.label, node.shape,
    node.group⟩

def diagram (draft : Draft) : Diagram :=
  ⟨draft.direction, draft.nodes.map Draft.Node.finish, draft.edges,
    draft.groups.map Draft.Group.toGroup⟩

end Draft

/-- A diagram and the remarks on its source. -/
structure Parsed where
  diagram : Diagram
  findings : List Finding
  deriving DecidableEq, Repr

def Parsed.diagnostics (parsed : Parsed) : List Diagnostic :=
  parsed.findings.map Finding.diagnostic

namespace Diagram

/-- Assembles a diagram of the given direction from its statements. -/
def assemble (direction : Direction) (body : List Fragment) : Parsed :=
  let draft : Draft := { direction := direction }
  let draft := (body.foldl Draft.read draft).closeAll
  ⟨draft.diagram, draft.findings⟩

/-- Reads a diagram.  Reading never fails: what is not understood is left out
and remarked on.  The first statement is the header; it sets the direction and
is never taken for a node. -/
def parse (source : List Char) : Parsed :=
  match Fragment.ofText source with
  | [] => ⟨{}, []⟩
  | header :: body =>
    assemble
      ((Grammar.headerDirection? header.text).getD .topBottom) body

end Diagram

end Flowchart
