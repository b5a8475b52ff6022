/-!
# Command line arguments

The words of the command line are read one after the other.  An option whose
value is the next word stays pending until that word has come, and its value is
looked at only when the next argument starts; so a word that is no known
argument is reported before a bad value in front of it.
-/

namespace Flowchart.Command

/-- What the command line asks for. -/
structure Args where
  /-- The file to read; a dash stands for standard input. -/
  input : String
  /-- The file to write, instead of standard output. -/
  output : Option String := none
  config : Option String := none
  logLevel : String := "info"
  /-- Write the source of the diagram instead of its graph. -/
  extract : Bool := false
  /-- The number of bytes in which the input is fed to the stream. -/
  streamChunk : Option Nat := none
  deriving DecidableEq, Repr

namespace Args

/-- The options that take a value. -/
inductive Setting where
  | output
  | config
  | logLevel
  | streamChunk
  deriving DecidableEq, Repr

/-- The options without a value. -/
inductive Flag where
  | extract
  | help
  | version
  deriving DecidableEq, Repr

inductive Choice where
  | setting (setting : Setting)
  | flag (flag : Flag)
  deriving DecidableEq, Repr

/-- The options by their long names. -/
def Choice.ofName? (name : String) : Option Choice :=
  [("output", .setting .output), ("config", .setting .config),
   ("log-level", .setting .logLevel), ("extract", .flag .extract),
   ("stream-chunk", .setting .streamChunk), ("help", .flag .help),
   ("version", .flag .version)].lookup name

/-- The options by their letters. -/
def Choice.ofLetter? : Char → Option Choice
  | 'o' => some (.setting .output)
  | 'c' => some (.setting .config)
  | 'h' => some (.flag .help)
  | 'V' => some (.flag .version)
  | _ => none

/-- Why no arguments come of a command line. -/
inductive Stop where
  /-- The user asks for help. -/
  | help
  /-- The user asks for the version. -/
  | version
  | missingInput
  /-- There is no place for the word. -/
  | unknown (word : String)
  | missingValue (setting : Setting)
  | badValue (setting : Setting) (value : String)
  /-- The option is given twice. -/
  | repeated (choice : Choice)
  /-- The option takes no value. -/
  | unneededValue (flag : Flag)
  deriving DecidableEq, Repr

/-- What has been read so far. -/
structure Progress where
  input : Option String := none
  output : Option String := none
  config : Option String := none
  logLevel : Option String := none
  extract : Bool := false
  streamChunk : Option Nat := none
  /-- The setting that was named last, with its value if that has come. -/
  pending : Option (Setting × Option String) := none
  /-- All words to come are inputs. -/
  isTrailing : Bool := false
  deriving DecidableEq, Repr

/-- Reads a chunk size, a decimal number from 1 to 4294967295. -/
def chunkSize? (value : String) : Option Nat :=
  let digits :=
    match value.toList with
    | '+' :: digits => digits
    | digits => digits
  if digits.isEmpty || !digits.all Char.isDigit then none
  else
    let size := digits.foldl (fun n c => 10 * n + (c.toNat - 48)) 0
    if 1 ≤ size ∧ size ≤ 4294967295 then some size else none

namespace Progress

def has (progress : Progress) : Setting → Bool
  | .output => progress.output.isSome
  | .config => progress.config.isSome
  | .logLevel => progress.logLevel.isSome
  | .streamChunk => progress.streamChunk.isSome

/-- Accepts a value. -/
def accept (progress : Progress) (setting : Setting) (value : String) :
    Except Stop Progress :=
  if progress.has setting then .error (.repeated (.setting setting))
  else
    match setting with
    | .output => .ok { progress with output := some value }
    | .config => .ok { progress with config := some value }
    | .logLevel => .ok { progress with logLevel := some value }
    | .streamChunk =>
      match chunkSize? value with
      | some size => .ok { progress with streamChunk := some size }
      | none => .error (.badValue .streamChunk value)

/-- Accepts the pending value. -/
def settle (progress : Progress) : Except Stop Progress :=
  match progress.pending with
  | none => .ok progress
  | some (setting, none) => .error (.missingValue setting)
  | some (setting, some value) =>
    { progress with pending := none }.accept setting value

/-- Takes a flag. -/
def raise (progress : Progress) (flag : Flag) : Except Stop Progress := do
  let progress ← progress.settle
  match flag with
  | .help => throw .help
  | .version => throw .version
  | .extract =>
    if progress.extract then throw (.repeated (.flag .extract))
    else return { progress with extract := true }

/-- Takes a setting, with its value if that is part of the same word. -/
def set (progress : Progress) (setting : Setting) (value : Option String) :
    Except Stop Progress := do
  let progress ← progress.settle
  match value with
  | some value => progress.accept setting value
  | none => return { progress with pending := some (setting, none) }

/-- Takes a word that is no option. -/
def position (progress : Progress) (word : String) : Except Stop Progress := do
  if progress.input.isSome then throw (.unknown word)
  let progress ← progress.settle
  return { progress with input := some word }

/-- Takes a long option; `text` is the word behind its two dashes. -/
def long (progress : Progress) (text : List Char) : Except Stop Progress :=
  let name := String.ofList (text.takeWhile (· != '='))
  let value :=
    match text.dropWhile (· != '=') with
    | [] => none
    | _ :: value => some (String.ofList value)
  match Choice.ofName? name, value with
  | none, _ => .error (.unknown (String.ofList ('-' :: '-' :: text)))
  | some (.setting setting), value => progress.set setting value
  | some (.flag flag), none => progress.raise flag
  | some (.flag flag), some _ => .error (.unneededValue flag)

/-- Takes letters behind one dash.  What follows the letter of a setting is its
value. -/
def letters (progress : Progress) : List Char → Except Stop Progress
  | [] => .ok progress
  | letter :: others =>
    match Choice.ofLetter? letter with
    | none => .error (.unknown (String.ofList ['-', letter]))
    | some (.flag flag) => do (← progress.raise flag).letters others
    | some (.setting setting) =>
      progress.set setting <|
        match others with
        | [] => none
        | '=' :: value => some (String.ofList value)
        | value => some (String.ofList value)

/-- Takes a word that does not start an option: a pending value, or the
input. -/
def plain (progress : Progress) (word : String) : Except Stop Progress :=
  match progress.pending with
  | some (setting, none) =>
    .ok { progress with pending := some (setting, some word) }
  | _ => progress.position word

/-- Takes one word. -/
def step (progress : Progress) (word : String) : Except Stop Progress :=
  if progress.isTrailing then progress.position word
  else
    match word.toList with
    | ['-', '-'] => .ok { progress with isTrailing := true }
    | '-' :: '-' :: text => progress.long text
    | ['-'] => progress.plain word
    | '-' :: text => progress.letters text
    | _ => progress.plain word

/-- The arguments, when all words have been taken. -/
def finish (progress : Progress) : Except Stop Args := do
  let progress ← progress.settle
  match progress.input with
  | none => throw .missingInput
  | some input => return {
      input := input
      output := progress.output
      config := progress.config
      logLevel := progress.logLevel.getD "info"
      extract := progress.extract
      streamChunk := progress.streamChunk }

end Progress

/-- Reads the words of the command line, without the name of the program. -/
def read (words : List String) : Except Stop Args := do
  (← words.foldlM Progress.step {}).finish

end Args

end Flowchart.Command
