import Flowchart.Settings.Document
import Flowchart.Toml.Quotation

/-!
# Numbers in TOML

An integer is written in decimal digits, or with a mark in front of it in
hexadecimal, octal or binary ones.  A float has a fraction, an exponent or both.
Underscores may stand between digits.  Integers outside of every machine format
and floats beyond the greatest number are refused.
-/

namespace Flowchart.Toml

/-- The digits of a numeral, without the underscores between them. -/
def digits? (isDigit : Char → Bool) : List Char → Option (List Char)
  | [] => none
  | [c] => if isDigit c then some [c] else none
  | c :: '_' :: rest =>
    if isDigit c then (digits? isDigit rest).map (c :: ·) else none
  | c :: rest =>
    if isDigit c then (digits? isDigit rest).map (c :: ·) else none

/-- The character is a digit in the base. -/
def isDigitIn (base : Nat) (c : Char) : Bool :=
  (digitValue? c).any (· < base)

/-- Decimal digits, without a zero in front of others. -/
def whole? (text : List Char) : Option (List Char) :=
  match digits? Char.isDigit text with
  | some ('0' :: _ :: _) => none
  | digits => digits

/-- Splits a sign from a numeral: whether it is a minus, and the rest. -/
def splitSign : List Char → Bool × List Char
  | '+' :: rest => (false, rest)
  | '-' :: rest => (true, rest)
  | text => (false, text)

/-! ### Integers -/

def signed (isNegative : Bool) (value : Nat) : Int :=
  if isNegative then -(value : Int) else value

/-- Reads an integer.  Only decimal ones can have a sign. -/
def integer? (text : List Char) : Option Int :=
  let inBase (base : Nat) (digits : List Char) : Option Int :=
    (digits? (isDigitIn base) digits).map fun digits => valueOf base digits
  match text with
  | '0' :: 'x' :: digits => inBase 16 digits
  | '0' :: 'o' :: digits => inBase 8 digits
  | '0' :: 'b' :: digits => inBase 2 digits
  | text =>
    let (isNegative, unsigned) := splitSign text
    (whole? unsigned).map fun digits => signed isNegative (valueOf 10 digits)

/-- The integer has a machine format of 128 bits, with or without a sign. -/
def isRepresentable (value : Int) : Bool :=
  -0x80000000000000000000000000000000 ≤ value &&
    value < 0x100000000000000000000000000000000

/-! ### Floats -/

/-- The number whose digits are given, behind the point if the exponent is
zero.  Far outside of the range of floats it is infinite or zero. -/
def scientific (digits : List Char) (exponent : Int) : Float :=
  let significant := digits.dropWhile (· == '0')
  let point := significant.length + exponent
  if significant.isEmpty || point < -400 then 0
  else if 400 < point then 1 / 0
  else Float.ofScientific (valueOf 10 significant) (exponent < 0) exponent.natAbs

/-- The exponent of a numeral, behind the letter. -/
def exponent? (text : List Char) : Option Int :=
  let (isNegative, unsigned) := splitSign text
  (digits? Char.isDigit unsigned).map fun digits =>
    signed isNegative (valueOf 10 digits)

/-- Splits the exponent from a numeral; without one it is zero. -/
def splitExponent? (text : List Char) : Option (List Char × Int) :=
  match text.span fun c => c != 'e' && c != 'E' with
  | (mantissa, []) => some (mantissa, 0)
  | (mantissa, _ :: exponent) =>
    (exponent? exponent).map fun exponent => (mantissa, exponent)

/-- Reads a float without its sign. -/
def magnitude? (text : List Char) : Option Float :=
  if text = ['i', 'n', 'f'] then some (1 / 0)
  else if text = ['n', 'a', 'n'] then some (0 / 0)
  else do
    let (mantissa, exponent) ← splitExponent? text
    let (whole, fraction) := mantissa.span (· != '.')
    let whole ← whole? whole
    let fraction ←
      match fraction with
      | [] => some []
      | _ :: fraction => digits? Char.isDigit fraction
    let value := scientific (whole ++ fraction) (exponent - fraction.length)
    if value.isFinite then some value else none

def float? (text : List Char) : Option Float :=
  let (isNegative, unsigned) := splitSign text
  (magnitude? unsigned).map fun value => if isNegative then -value else value

/-- Reads a number. -/
def number? (text : List Char) : Option Document :=
  match integer? text with
  | some value => if isRepresentable value then some (.integer value) else none
  | none => (float? text).map .number

end Flowchart.Toml
