import Flowchart.Source.Fence

/-!
# Diagram text from a stream

Diagram text may arrive in pieces that are cut anywhere.  A stream scans for
the opening fence or for a diagram keyword, collects the code behind it, and
ends at the closing fence or when it is told to.

```text
            opening fence, keyword          closing fence, finish
  scanning ------------------------> inCode ---------------------> finished
      |                                                                ^
      +----------------------------- finish --------------------------+
```
-/

namespace Flowchart

open Text

/-- What a stream is doing. -/
inductive Stream.Phase where
  /-- Looking for the start of the code. -/
  | scanning
  /-- Collecting code. -/
  | inCode
  /-- Ignoring whatever comes. -/
  | finished
  deriving DecidableEq, Repr

/-- What a stream reports. -/
inductive Stream.Event where
  /-- The code collected so far has grown to this text. -/
  | grown (code : List Char)
  /-- The code is complete; this is the trimmed text. -/
  | done (code : List Char)
  deriving DecidableEq, Repr

structure Stream where
  phase : Stream.Phase := .scanning
  /-- Text that is not yet understood; behind the closing fence, the rest. -/
  buffer : List Char := []
  /-- The code collected so far. -/
  collected : List Char := []
  deriving DecidableEq, Repr

namespace Stream

/-- The number of characters that are kept while scanning. -/
def window : Nat :=
  2048

def isFinished (stream : Stream) : Bool :=
  stream.phase == .finished

/-- Drops the line break at the start of the text, if there is one. -/
def skipLineBreak (text : List Char) : List Char :=
  (afterLineBreak? text).getD text

/-- The text from the start of the code on.  A keyword counts only once
something else than a blank follows it; before that it may be the beginning of
a longer word, or a node id. -/
def codeStart? (text : List Char) : Option (List Char) :=
  match cut? Fence.taggedMark text with
  | some (_, rest) => some (skipLineBreak rest)
  | none =>
    (Keyword.first? text).bind fun occurrence =>
      if occurrence.after.any (!isBlank ·) then some occurrence.onwards
      else none

/-- The last characters of the text, as many as the window holds. -/
def lastWindow (text : List Char) : List Char :=
  text.drop (text.length - window)

/-- The code with more code behind it.  Line breaks in front of all code are
dropped. -/
def collect (collected code : List Char) : List Char :=
  if collected.isEmpty then code.dropWhile isLineBreak else collected ++ code

/-- The backquotes at the end of the text, two at the most.  They may be the
beginning of a closing fence. -/
def pendingMark (text : List Char) : List Char :=
  ((text.reverse.take 2).takeWhile (· == '`')).reverse

/-- Moves code from the buffer to the collected code, and stops at a closing
fence. -/
def consumeCode (stream : Stream) : Stream × List Event :=
  match cut? Fence.mark stream.buffer with
  | some (code, rest) =>
    let collected := collect stream.collected code
    (⟨.finished, rest, collected⟩, [.done (trim collected)])
  | none =>
    let pending := pendingMark stream.buffer
    let code := stream.buffer.take (stream.buffer.length - pending.length)
    let collected := collect stream.collected code
    (⟨.inCode, pending, collected⟩,
      if collected == stream.collected then [] else [.grown collected])

/-- Takes in one more piece of the text. -/
def append (stream : Stream) (chunk : List Char) : Stream × List Event :=
  let buffer := stream.buffer ++ chunk
  match stream.phase with
  | .finished => (stream, [])
  | .inCode => consumeCode { stream with buffer := buffer }
  | .scanning =>
    match codeStart? buffer with
    | some code => consumeCode ⟨.inCode, code, stream.collected⟩
    | none => ({ stream with buffer := lastWindow buffer }, [])

/-- Ends the stream.  Where no code has been found, the last keyword of the
buffer may still open it, even at the very end. -/
def finish (stream : Stream) : Stream × List Event :=
  match stream.phase with
  | .finished => (stream, [])
  | .inCode =>
    let collected := collect stream.collected stream.buffer
    (⟨.finished, [], collected⟩, [.done (trim collected)])
  | .scanning =>
    match Keyword.first? stream.buffer with
    | some occurrence =>
      (⟨.finished, [], occurrence.onwards⟩, [.done (trim occurrence.onwards)])
    | none =>
      ({ stream with phase := .finished }, [.done (trim stream.collected)])

/-- A call on a stream. -/
inductive Call where
  | append (chunk : List Char)
  | finish
  deriving DecidableEq, Repr

def call (stream : Stream) : Call → Stream × List Event
  | .append chunk => stream.append chunk
  | .finish => stream.finish

/-- The stream and all its reports after a sequence of calls. -/
def run (stream : Stream) : List Call → Stream × List Event
  | [] => (stream, [])
  | first :: rest =>
    let (next, events) := stream.call first
    let (last, more) := next.run rest
    (last, events ++ more)

/-- Cuts off characters until the given number of bytes is reached. -/
def takeBytes (size : Nat) : List Char → List Char × List Char
  | [] => ([], [])
  | c :: text =>
    if size = 0 then ([], c :: text)
    else
      let (chunk, rest) := takeBytes (size - c.utf8Size) text
      (c :: chunk, rest)

theorem length_takeBytes_le (size : Nat) (text : List Char) :
    (takeBytes size text).2.length ≤ text.length := by
  induction text generalizing size with
  | nil => simp [takeBytes]
  | cons c text ih =>
    simp only [takeBytes]
    split
    · simp
    · have := ih (size - c.utf8Size)
      simp
      omega

/-- Cuts the text into pieces of the given number of bytes, or of a few more
where a character would be cut in two. -/
def chunks (size : Nat) (text : List Char) : List (List Char) :=
  match text with
  | [] => []
  | c :: rest =>
    have := length_takeBytes_le (size - c.utf8Size) rest
    (c :: (takeBytes (size - c.utf8Size) rest).1) ::
      chunks size (takeBytes (size - c.utf8Size) rest).2
termination_by text.length

/-- The code of the first report that the code is complete. -/
def doneCode? (events : List Event) : Option (List Char) :=
  events.findSome? fun
    | .done code => some code
    | .grown _ => none

/-- The diagram text that a stream finds in the content when it arrives in
pieces of the given size. -/
def extract (size : Nat) (content : List Char) : List Char :=
  let calls := (chunks size content).map Call.append ++ [.finish]
  (doneCode? (run {} calls).2).getD []

end Stream

end Flowchart
