import Flowchart.Assembly
import Flowchart.Graph
import Flowchart.Source.Fence
import Flowchart.Source.Sanitize

/-!
# From text to graph

The whole way: the diagram is taken out of the text around it, sanitized, read,
laid out and composed.
-/

namespace Flowchart

/-- The source of the diagram in a text, ready to be read. -/
def prepare (content : List Char) : List Char :=
  Sanitize.sanitize (Fence.extract content)

variable {β : Type} [Scalar β]

/-- Lays out and composes a diagram. -/
def Settings.draw (engine : Layered.Engine Float32 β) (settings : Settings)
    (diagram : Diagram) :
    Except (DiagramFault Float32)
      (DiagramLayout Float32 × Graph Float32) := do
  let layout ← diagram.layout engine settings.layout
  let graph ← (diagram.compose layout settings.style.edgePalette).mapError
    DiagramFault.layout
  return (layout, graph)

/-- The graph of a text. -/
def Settings.convert (engine : Layered.Engine Float32 β) (settings : Settings)
    (content : List Char) : Except (DiagramFault Float32) (Graph Float32) :=
  (settings.draw engine (Diagram.parse (prepare content)).diagram).map Prod.snd

/-- The graph of a text by the default settings; an empty graph if there is
none. -/
def convert (engine : Layered.Engine Float32 β) (content : List Char) :
    Graph Float32 :=
  (Settings.default.convert engine content).toOption.getD {}

end Flowchart
