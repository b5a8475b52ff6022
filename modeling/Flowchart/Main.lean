import Flowchart.Command.Args
import Flowchart.Command.Run

/-!
# The command

Reads the files that the command line names, runs, and writes the output.
-/

namespace Flowchart.Command

/-- The text of a file, if it can be read. -/
def readFile? (path : String) : IO (Option String) := do
  try
    let text ← IO.FS.readFile path
    return some text
  catch _ => return none

/-- The text of the input; a dash stands for standard input. -/
def readInput? (path : String) : IO (Option String) := do
  if path == "-" then
    let stdin ← IO.getStdin
    return some (← stdin.readToEnd)
  else readFile? path

/-- The directory for settings, if there is one. -/
def settingsDirectory? : IO (Option String) := do
  match ← IO.getEnv "XDG_CONFIG_HOME" with
  | some directory => return some directory
  | none => return (← IO.getEnv "HOME").map (· ++ "/.config")

/-- Reads the files of settings as far as they are needed. -/
def settingsFiles (requested : Option String) :
    IO SettingsFiles := do
  match requested with
  | some path =>
    let text ← readFile? path
    return { requested := some (path, text) }
  | none =>
    let near ← readFile? "flowgraph/config.toml"
    let system ←
      match ← settingsDirectory? with
      | some directory => readFile? (directory ++ "/flowgraph/config.toml")
      | none => pure none
    return { near := near, system := system }

def usage : String :=
  "Usage: flowgraph [OPTIONS] <INPUT>"

def version : String :=
  "flowgraph 0.1.0"

/-- Runs with the given arguments. -/
def runWith (args : Args) : IO UInt32 := do
  let files ← settingsFiles args.config
  let input ← readInput? args.input
  let task : Task := ⟨args.extract, args.streamChunk⟩
  match run Layered.sugiyama files input task with
  | .error failure =>
    IO.eprintln (failure.code ++ ": " ++ failure.message)
    return 1
  | .ok summary =>
    match args.output with
    | some path => IO.FS.writeFile path summary.output
    | none => IO.println summary.output
    for diagnostic in summary.diagnostics do
      IO.eprintln diagnostic.render
    return 0

end Flowchart.Command

open Flowchart.Command in
def main (words : List String) : IO UInt32 := do
  match Args.read words with
  | .ok args => runWith args
  | .error .help =>
    IO.println usage
    return 0
  | .error .version =>
    IO.println version
    return 0
  | .error _ =>
    IO.eprintln usage
    return 2
