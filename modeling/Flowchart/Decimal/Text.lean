import Flowchart.Decimal.Shortest

/-!
# Writing numbers

Two ways to write a single-precision number with its shortest digits.  Messages
write plain digits and a point only where it is needed.  Written graphs always
show a fraction, and use an exponent for very large and very small numbers.
-/

namespace Flowchart.Decimal

/-- Where the decimal point stands in a text of digits, counted from the
left. -/
structure Numeral where
  digits : List Char
  point : Int
  deriving DecidableEq, Repr

/-- The digits without zeros at the end, and the place of the point. -/
def Digits.numeral (number : Digits) : Numeral :=
  let digits := (toString number.digits).toList
  let kept := (digits.reverse.dropWhile (· == '0')).reverse
  if kept.isEmpty then ⟨['0'], 1⟩
  else ⟨kept, digits.length + number.exponent⟩

namespace Numeral

def zeros (count : Int) : List Char :=
  List.replicate count.toNat '0'

/-- The digits before the point. -/
def whole (numeral : Numeral) : List Char :=
  if numeral.point ≤ 0 then ['0']
  else
    numeral.digits.take numeral.point.toNat ++
      zeros (numeral.point - numeral.digits.length)

/-- The digits behind the point. -/
def fraction (numeral : Numeral) : List Char :=
  zeros (-numeral.point) ++ numeral.digits.drop numeral.point.toNat

/-- An exponent with its sign. -/
def exponent (power : Int) : List Char :=
  (if power < 0 then '-' else '+') :: (toString power.natAbs).toList

/-- One digit, the other digits behind a point, and an exponent. -/
def scientific (numeral : Numeral) : List Char :=
  let exponent := exponent (numeral.point - 1)
  match numeral.digits with
  | [] => []
  | [digit] => digit :: 'e' :: exponent
  | digit :: others => digit :: '.' :: others ++ 'e' :: exponent

end Numeral

/-- How numbers are written. -/
structure Style where
  /-- Whole numbers show an empty fraction. -/
  showsFraction : Bool
  /-- The places of the point at which all digits are written out; everywhere if
  missing. -/
  positional : Option (Int × Int)
  /-- Which of two equally near shortest decimals is written. -/
  tie : Tie
  deriving DecidableEq, Repr

/-- Numbers in messages: whole numbers without a fraction, never an exponent,
and the greater one of two equally near decimals. -/
def Style.message : Style :=
  ⟨false, none, .toGreater⟩

/-- Numbers in written graphs: always a fraction or an exponent, all digits
from a millionth up to ten trillions, and the even one of two equally near
decimals. -/
def Style.graph : Style :=
  ⟨true, some (-5, 13), .toEven⟩

def Style.isPositional (style : Style) (point : Int) : Bool :=
  match style.positional with
  | none => true
  | some (least, greatest) => least ≤ point && point ≤ greatest

/-- Writes digits in the style. -/
def Style.write (style : Style) (numeral : Numeral) : List Char :=
  if style.isPositional numeral.point then
    let fraction := numeral.fraction
    if fraction.isEmpty then
      numeral.whole ++ if style.showsFraction then ['.', '0'] else []
    else numeral.whole ++ '.' :: fraction
  else numeral.scientific

/-- Writes a number. -/
def write (style : Style) (x : Float32) : String :=
  if x.isNaN then "NaN"
  else
    let digits :=
      if x.isInf then "inf".toList
      else style.write (shortestDigits x style.tie).numeral
    String.ofList (if isNegative x then '-' :: digits else digits)

end Flowchart.Decimal
