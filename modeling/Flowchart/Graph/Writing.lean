import Flowchart.Graph
import Flowchart.Json

/-!
# Written graphs

The form in which a graph leaves the program.  What is missing has no field.
-/

namespace Flowchart

/-- A field that is left out without a value. -/
def Json.field? (name : String) (value : Option String) :
    List (String × Json) :=
  (value.map fun value => (name, Json.text value)).toList

/-- A number; those that are not finite have no numeral. -/
def Json.single (x : Float32) : Json :=
  if x.isFinite then .number (Decimal.write .graph x) else .null

def Point.json (point : Point Float32) : Json :=
  .object [("x", .single point.x), ("y", .single point.y)]

def Size.json (size : Size Float32) : Json :=
  .object [("width", .single size.width), ("height", .single size.height)]

def ColorPair.json (colors : ColorPair) : Json :=
  .object [("background", .text colors.background.css),
    ("border", .text colors.border.css)]

/-- A box inside a group names the group, and must stay inside of it. -/
def GraphNode.json (node : GraphNode Float32) : Json :=
  .object <|
    [("id", .text node.id), ("kind", .text node.role.name),
      ("label", .text node.label)] ++
    Json.field? "shape" (node.role.shape?.map Shape.name) ++
    [("position", node.box.position.json), ("size", node.box.size.json)] ++
    Json.field? "parentNode" node.parent ++
    Json.field? "extent" (node.extent.map Extent.name) ++
    [("style", node.colors.json)]

def Stroke.fields (stroke : Stroke) : List (String × Json) :=
  [("animated", .truth stroke.isAnimated), ("dashed", .truth stroke.isDashed),
    ("hidden", .truth stroke.isHidden),
    ("strokeWidth", .single stroke.width)] ++
  Json.field? "markerStart" (stroke.startMarker.map Marker.name) ++
  Json.field? "markerEnd" (stroke.endMarker.map Marker.name)

def GraphEdge.json (edge : GraphEdge) : Json :=
  .object <|
    [("id", .text edge.id), ("source", .text edge.source),
      ("target", .text edge.target)] ++
    Json.field? "label" edge.label ++
    [("edgeType", .text edge.connector.name)] ++
    edge.connector.stroke.fields ++
    [("color", .text edge.color.css)]

def Graph.json (graph : Graph Float32) : Json :=
  .object [("nodes", .list (graph.nodes.map GraphNode.json)),
    ("edges", .list (graph.edges.map GraphEdge.json))]

end Flowchart
