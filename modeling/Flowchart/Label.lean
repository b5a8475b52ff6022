import Flowchart.Text.Quote

/-!
# Labels

The text of a label as it is shown: escapes are resolved, `<br>` tags become
line breaks, all other markup is dropped, and every line is trimmed.  A title
also yields the id of a group that has no other.
-/

namespace Flowchart.Label

open Text

/-- Resolves the escapes of a quoted label.  The escape `\n` stands for a
blank; a backslash in front of any other character is kept. -/
def unescape : List Char → List Char
  | '\\' :: '"' :: rest => '"' :: unescape rest
  | '\\' :: '\\' :: rest => '\\' :: unescape rest
  | '\\' :: 'n' :: rest => ' ' :: unescape rest
  | '\\' :: c :: rest => '\\' :: c :: unescape rest
  | c :: rest => c :: unescape rest
  | [] => []

/-- What follows a line break with the blanks around it. -/
def afterBrokenLine? (text : List Char) : Option (List Char) :=
  (afterLineBreak? (text.dropWhile isBlank)).map (·.dropWhile isBlank)

/-- What follows a `<br>` tag in any case of the letters, also `<br/>`. -/
def afterBreakTag? : List Char → Option (List Char)
  | '<' :: b :: r :: rest =>
    if (b = 'b' ∨ b = 'B') ∧ (r = 'r' ∨ r = 'R') then
      match rest.dropWhile isWhiteSpace with
      | '>' :: after => some after
      | '/' :: '>' :: after => some after
      | _ => none
    else none
  | _ => none

/-- What follows the name of a tag and its closing bracket. -/
def afterTagName? : List Char → Option (List Char)
  | c :: rest =>
    if c.isAlpha then
      after? ['>'] (rest.dropWhile fun d => d != '<' && d != '>')
    else none
  | [] => none

/-- What follows a markup tag, an opening or a closing one. -/
def afterTag? : List Char → Option (List Char)
  | '<' :: '/' :: rest => afterTagName? rest
  | '<' :: rest => afterTagName? rest
  | _ => none

/-- Replaces every piece that the reader recognizes, from the left. -/
def replaceAll (after? : List Char → Option (List Char))
    (replacement : List Char) (text : List Char) : List Char :=
  match text with
  | [] => []
  | c :: below =>
    match after? (c :: below) with
    | some rest =>
      if rest.length < (c :: below).length then
        replacement ++ replaceAll after? replacement rest
      else c :: replaceAll after? replacement below
    | none => c :: replaceAll after? replacement below
termination_by text.length
decreasing_by
  · assumption
  · exact Nat.lt_succ_self _
  · exact Nat.lt_succ_self _

/-- Trims every line, and the text as a whole. -/
def trimLines (text : List Char) : List Char :=
  trim (['\n'].intercalate ((lines text).map trim))

/-- The text of a label as it is shown.  A quoted label is unescaped first, and
its line breaks become blanks. -/
def normalize (raw : List Char) (quoted : Bool) : List Char :=
  let text :=
    if quoted then replaceAll afterBrokenLine? [' '] (unescape raw) else raw
  trimLines (replaceAll afterTag? [] (replaceAll afterBreakTag? ['\n'] text))

/-- The maximal runs of alphanumeric characters. -/
def alphanumericRuns (title : List Char) : List (List Char) :=
  (title.splitOnP (!isAlphanumeric ·)).filter (!·.isEmpty)

/-- The id of a group that is only given a title: its alphanumeric runs, joined
by underscores. -/
def slug (title : List Char) : List Char :=
  match alphanumericRuns title with
  | [] => "group".toList
  | runs => ['_'].intercalate runs

end Flowchart.Label
