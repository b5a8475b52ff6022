import Flowchart.Toml.Space

/-!
# Strings in TOML

There are four ways to quote a text: with double or single quotes, on one line
or, with three quotes at either end, on several ones.  Between double quotes a
backslash starts an escape.  A way to quote says where a string ends, and how
the next piece of it is read.
-/

namespace Flowchart.Toml

open Text

/-- The value of a digit, in any base up to sixteen. -/
def digitValue? (c : Char) : Option Nat :=
  if c.isDigit then some (c.toNat - 48)
  else if 'a' ≤ c ∧ c ≤ 'f' then some (c.toNat - 87)
  else if 'A' ≤ c ∧ c ≤ 'F' then some (c.toNat - 55)
  else none

/-- The number that digits stand for. -/
def valueOf (base : Nat) (digits : List Char) : Nat :=
  digits.foldl (fun value c => base * value + (digitValue? c).getD 0) 0

/-- The character whose code is written in the given number of hexadecimal
digits, and what follows. -/
def charOfCode? (length : Nat) (text : List Char) :
    Option (Char × List Char) :=
  let digits := text.take length
  let code := valueOf 16 digits
  if digits.length = length ∧ digits.all (digitValue? · |>.isSome) ∧
      code.isValidChar then
    some (Char.ofNat code, text.drop length)
  else none

/-- The character that a letter stands for behind a backslash. -/
def escaped? : Char → Option Char
  | 'b' => some (Char.ofNat 8)
  | 't' => some '\t'
  | 'n' => some '\n'
  | 'f' => some (Char.ofNat 12)
  | 'r' => some '\r'
  | 'e' => some (Char.ofNat 27)
  | '"' => some '"'
  | '\\' => some '\\'
  | _ => none

/-- Reads what stands behind a backslash. -/
def escape? : List Char → Option (Char × List Char)
  | [] => none
  | 'x' :: rest => charOfCode? 2 rest
  | 'u' :: rest => charOfCode? 4 rest
  | 'U' :: rest => charOfCode? 8 rest
  | c :: rest => (escaped? c).map fun char => (char, rest)

/-- A way to quote. -/
structure Quotation where
  /-- At the end of a string: the characters that still belong to it, and what
  follows it. -/
  close? : List Char → Option (List Char × List Char)
  /-- Inside of a string: the next characters, and what follows them. -/
  piece? : List Char → Option (List Char × List Char)

/-- Reads a string behind its opening quotes, and what follows it. -/
def Quotation.read? (quotation : Quotation) (text : List Char) :
    Option (List Char × List Char) :=
  match quotation.close? text with
  | some closed => some closed
  | none =>
    match quotation.piece? text with
    | none => none
    | some (piece, next) =>
      if next.length < text.length then
        (quotation.read? next).map fun (others, rest) => (piece ++ others, rest)
      else none
termination_by text.length

namespace Quotation

/-- The end of a string on one line. -/
def closeShort? (quote : Char) : List Char → Option (List Char × List Char)
  | [] => none
  | c :: rest => if c = quote then some ([], rest) else none

/-- The end of a string between threefold quotes.  One or two quotes more
belong to the string. -/
def closeLong? (quote : Char) (text : List Char) :
    Option (List Char × List Char) :=
  let quotes := (text.takeWhile (· == quote)).take 5
  if 3 ≤ quotes.length then
    some (quotes.drop 3, text.drop quotes.length)
  else none

def plainPiece? : List Char → Option (List Char × List Char)
  | [] => none
  | c :: rest => if isPlain c then some ([c], rest) else none

/-- A line break counts as a line feed. -/
def breakPiece? (text : List Char) : Option (List Char × List Char) :=
  (afterLineBreak? text).map fun rest => (['\n'], rest)

def escapePiece? : List Char → Option (List Char × List Char)
  | '\\' :: rest => (escape? rest).map fun (c, rest) => ([c], rest)
  | text => plainPiece? text

/-- A backslash at the end of a line joins the line with the next text. -/
def joinPiece? : List Char → Option (List Char × List Char)
  | '\\' :: rest =>
    (afterLineBreak? (skipBlanks rest)).map fun rest => ([], skipBreaks rest)
  | _ => none

def basic : Quotation :=
  ⟨closeShort? '"', escapePiece?⟩

def literal : Quotation :=
  ⟨closeShort? '\'', plainPiece?⟩

def longBasic : Quotation :=
  ⟨closeLong? '"', fun text =>
    (breakPiece? text).or ((joinPiece? text).or (escapePiece? text))⟩

def longLiteral : Quotation :=
  ⟨closeLong? '\'', fun text => (breakPiece? text).or (plainPiece? text)⟩

end Quotation

/-- Reads a string on one line. -/
def shortString? : List Char → Option (List Char × List Char)
  | '"' :: rest => Quotation.basic.read? rest
  | '\'' :: rest => Quotation.literal.read? rest
  | _ => none

/-- Reads a string.  A line break right behind threefold quotes does not
count. -/
def string? (text : List Char) : Option (List Char × List Char) :=
  match text with
  | '"' :: '"' :: '"' :: rest =>
    Quotation.longBasic.read? ((afterLineBreak? rest).getD rest)
  | '\'' :: '\'' :: '\'' :: rest =>
    Quotation.longLiteral.read? ((afterLineBreak? rest).getD rest)
  | text => shortString? text

end Flowchart.Toml
