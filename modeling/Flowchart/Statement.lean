import Flowchart.Diagram
import Flowchart.Span

/-!
# Statements

The statements of a diagram text, as the grammar delivers them: group openings
and endings, direction settings, chains of nodes and links, and statements that
have no effect on the graph.
-/

namespace Flowchart

/-- The outline and the label that a node is given. -/
structure Definition where
  shape : Shape
  label : String
  deriving DecidableEq, Repr

/-- A node named in a statement, with or without a definition. -/
structure Mention where
  id : String
  definition : Option Definition
  span : Span
  deriving DecidableEq, Repr

/-- What joins two lists of nodes. -/
structure Link where
  connector : Connector
  label : Option String
  deriving DecidableEq, Repr

/-- A list of nodes, and further lists of nodes that are linked to the list
before them. -/
structure Chain where
  head : List Mention
  links : List (Link × List Mention)
  deriving DecidableEq, Repr

/-- The opening line of a group. -/
structure GroupHeader where
  /-- The id; missing where only a title is given. -/
  id : Option String
  title : Option String
  deriving DecidableEq, Repr

inductive Statement where
  | openGroup (header : GroupHeader)
  | closeGroup
  | direction (direction : Direction)
  /-- A styling or interaction statement, by its keyword. -/
  | unsupported (keyword : String)
  | chain (chain : Chain)
  | nodes (mentions : List Mention)
  deriving DecidableEq, Repr

/-- All nodes that a chain names, from left to right. -/
def Chain.mentions (chain : Chain) : List Mention :=
  chain.head ++ chain.links.flatMap Prod.snd

end Flowchart
