import Flowchart.Toml.Moment
import Flowchart.Toml.Numeral
import Flowchart.Toml.Tree

/-!
# Keys and values in TOML

Readers take a text to what they have read and what follows it.  Lists and
tables between braces may run over several lines, carry comments and end in a
comma, and are nested at most `maxDepth` deep.
-/

namespace Flowchart.Toml

open Text

/-! ### Keys -/

def isKeyChar (c : Char) : Bool :=
  c.isAlphanum || c == '_' || c == '-'

/-- Reads a name. -/
def name? (text : List Char) : Option (String × List Char) :=
  let bare := text.takeWhile isKeyChar
  if bare.isEmpty then
    (shortString? text).map fun (name, rest) => (String.ofList name, rest)
  else some (String.ofList bare, text.dropWhile isKeyChar)

/-- Reads names with dots between them, and the blanks around them. -/
def key? (text : List Char) : Option (Key × List Char) :=
  match name? (skipBlanks text) with
  | none => none
  | some (name, next) =>
    match skipBlanks next with
    | '.' :: rest =>
      if rest.length < text.length then
        (key? rest).map fun (key, rest) =>
          ({ key with path := name :: key.path }, rest)
      else none
    | rest => some (⟨[], name⟩, rest)
termination_by text.length

/-! ### Values -/

/-- The characters of numbers, truth values and moments. -/
def isWordChar (c : Char) : Bool :=
  isKeyChar c || c == '+' || c == '.' || c == ':'

/-- What a word stands for.  A moment is as good as a table without
settings. -/
def word? (word : List Char) : Option Document :=
  if word = ['t', 'r', 'u', 'e'] then some (.truth true)
  else if word = ['f', 'a', 'l', 's', 'e'] then some (.truth false)
  else if isMoment word then some (.table [])
  else number? word

/-- Splits the word at the start from a text.  One blank may stand between a
date and a time. -/
def splitWord (text : List Char) : List Char × List Char :=
  let (word, rest) := text.span isWordChar
  match rest with
  | ' ' :: more =>
    let (time, next) := more.span isWordChar
    if isDate word && isTimeWithOffset time then (word ++ ' ' :: time, next)
    else (word, rest)
  | _ => (word, rest)

/-- How deep lists and tables may be nested. -/
def maxDepth : Nat :=
  80

mutual

/-- Reads a value in which at most `depth` brackets are open at once. -/
def value? (depth : Nat) : Nat → List Char → Option (Document × List Char)
  | 0, _ => none
  | fuel + 1, text =>
    match text with
    | '[' :: rest =>
      if depth = 0 then none
      else
        (items? (depth - 1) fuel rest).map fun (items, rest) =>
          (.list items, rest)
    | '{' :: rest =>
      if depth = 0 then none
      else do
        let (assignments, rest) ← assignments? (depth - 1) fuel rest
        return (← inlineTable? assignments, rest)
    | '"' :: _ | '\'' :: _ =>
      (string? text).map fun (value, rest) =>
        (.text (String.ofList value), rest)
    | text =>
      let (word, rest) := splitWord text
      (word? word).map fun value => (value, rest)

/-- Reads the items of a list up to its closing bracket. -/
def items? (depth : Nat) : Nat → List Char → Option (List Document × List Char)
  | 0, _ => none
  | fuel + 1, text =>
    match skipSpace text with
    | ']' :: rest => some ([], rest)
    | text => do
      let (value, rest) ← value? depth fuel text
      match skipSpace rest with
      | ']' :: rest => return ([value], rest)
      | ',' :: rest =>
        let (values, rest) ← items? depth fuel rest
        return (value :: values, rest)
      | _ => none

/-- Reads the assignments of a table up to its closing brace. -/
def assignments? (depth : Nat) :
    Nat → List Char → Option (List (Key × Document) × List Char)
  | 0, _ => none
  | fuel + 1, text =>
    match skipSpace text with
    | '}' :: rest => some ([], rest)
    | text => do
      let (key, rest) ← key? text
      let (value, rest) ←
        value? depth fuel (skipBlanks (← afterMark? '=' rest))
      match skipSpace rest with
      | '}' :: rest => return ([(key, value)], rest)
      | ',' :: rest =>
        let (others, rest) ← assignments? depth fuel rest
        return ((key, value) :: others, rest)
      | _ => none

end

/-- Reads an assignment. -/
def assignment? (text : List Char) :
    Option ((Key × Document) × List Char) := do
  let (key, rest) ← key? text
  let text := skipBlanks (← afterMark? '=' rest)
  let (value, rest) ← value? maxDepth (text.length + 1) text
  return ((key, value), rest)

end Flowchart.Toml
