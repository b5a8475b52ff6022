import Flowchart.Conversion
import Flowchart.Graph.Writing
import Flowchart.Toml
import Flowchart.Source.Stream

/-!
# Running the command

A run reads settings and an input, and gives a text to be written together with
remarks on the source.  The texts of the files come from outside; here, they
are given or missing.
-/

namespace Flowchart.Command

/-- Why a run gives no output. -/
inductive Failure where
  /-- The input cannot be read. -/
  | unreadable
  /-- The settings are refused, or the layout fails. -/
  | diagram (fault : DiagramFault Float32)
  /-- There is no file of settings at the path. -/
  | missingSettings (path : String)
  | malformedSettings
  deriving DecidableEq, Repr

namespace Failure

def message : Failure → String
  | .unreadable => "I/O error"
  | .diagram fault => fault.message
  | .missingSettings path =>
    "Config error: Missing configuration file: " ++ path
  | .malformedSettings => "Config error: Failed to parse TOML configuration"

/-- The code under which a failure is reported. -/
def code : Failure → String
  | .unreadable => "flowgraph::io"
  | .diagram (.layout _) => "flowgraph::layout"
  | .diagram (.settings _) => "flowgraph::config"
  | .missingSettings _ => "flowgraph::config"
  | .malformedSettings => "flowgraph::config"

end Failure

/-- The files in which settings may stand, with their texts if they are
there. -/
structure SettingsFiles where
  /-- The path that the user asks for. -/
  requested : Option (String × Option String) := none
  /-- The file below the working directory. -/
  near : Option String := none
  /-- The file in the directory for settings. -/
  system : Option String := none
  deriving DecidableEq, Repr

/-- Reads a file of settings, which have to be sound. -/
def readSettings (text : String) : Except Failure Settings :=
  match (Toml.read? text.toList).bind Settings.ofDocument? with
  | none => .error .malformedSettings
  | some settings =>
    match settings.layout.fault? with
    | some fault => .error (.diagram (.settings fault))
    | none => .ok settings

/-- The settings of the first file that is asked for or there; the default ones
without any. -/
def SettingsFiles.load (files : SettingsFiles) : Except Failure Settings :=
  match files.requested with
  | some (_, some text) => readSettings text
  | some (path, none) => .error (.missingSettings path)
  | none =>
    match files.near <|> files.system with
    | some text => readSettings text
    | none => .ok .default

/-- What to do with the input. -/
structure Task where
  /-- Give the source instead of the graph. -/
  extract : Bool := false
  /-- Feed the input through the stream, in chunks of this many bytes. -/
  streamChunk : Option Nat := none
  deriving DecidableEq, Repr

/-- What comes of a run. -/
structure Summary where
  output : String
  /-- The source that was read. -/
  source : List Char
  diagnostics : List Diagnostic
  deriving DecidableEq, Repr

/-- The diagnostics as they are shown beside the source. -/
def Summary.reports (summary : Summary) : List Report :=
  summary.diagnostics.map (·.report (String.ofList summary.source))

/-- The content from which the source is taken. -/
def Task.content (task : Task) (input : List Char) : List Char :=
  match task.streamChunk with
  | some size => Stream.extract size input
  | none => input

variable {β : Type} [Scalar β]

/-- The text to be written. -/
def Task.output (engine : Layered.Engine Float32 β) (task : Task)
    (settings : Settings) (source : List Char) (diagram : Diagram) :
    Except Failure String :=
  if task.extract then .ok (String.ofList source)
  else
    let drawn := settings.draw engine diagram
    (drawn.map fun (_, graph) => graph.json.write).mapError Failure.diagram

/-- Reads settings and input, and makes the output. -/
def run (engine : Layered.Engine Float32 β) (files : SettingsFiles)
    (input : Option String) (task : Task) : Except Failure Summary := do
  let settings ← files.load
  match input with
  | none => throw .unreadable
  | some input =>
    let source := prepare (task.content input.toList)
    let parsed := Diagram.parse source
    let output ← task.output engine settings source parsed.diagram
    return ⟨output, source, parsed.diagnostics⟩

end Flowchart.Command
