/-!
# Shortest decimals

A machine number stands for every real number that rounds to it.  Among these,
`Binary.shortest` picks a decimal with as few digits as possible, and of those
the nearest one: it goes through the powers of ten from above and takes the
first one that has a multiple in the interval.  Which of two equally near ones
counts is left to the caller.
-/

namespace Flowchart.Decimal

/-- The choice between two neighbors that are equally near. -/
inductive Tie where
  | toEven
  | toGreater
  deriving DecidableEq, Repr

/-- Of the two neighbors, the lower one is preferred. -/
def Tie.prefersLower : Tie → Nat → Bool
  | .toEven, lower => lower % 2 == 0
  | .toGreater, _ => false

/-- A positive binary number, `mantissa · 2 ^ exponent`. -/
structure Binary where
  mantissa : Nat
  exponent : Int
  /-- The next smaller number is only half as far away as the next greater
  one. -/
  isNarrowBelow : Bool
  deriving DecidableEq, Repr

/-- A decimal number, `digits · 10 ^ exponent`. -/
structure Digits where
  digits : Nat
  exponent : Int
  deriving DecidableEq, Repr

/-- The rounding interval of a number, over a common denominator. -/
structure Interval where
  low : Nat
  value : Nat
  high : Nat
  denominator : Nat
  /-- The ends belong to the interval. -/
  isClosed : Bool
  deriving DecidableEq, Repr

namespace Interval

/-- The interval, measured in the given power of ten. -/
def inPowers (interval : Interval) (exponent : Int) : Interval :=
  match exponent with
  | .ofNat n =>
    { interval with denominator := interval.denominator * Nat.pow 10 n }
  | .negSucc n =>
    let factor := Nat.pow 10 (n + 1)
    { interval with
      low := interval.low * factor
      value := interval.value * factor
      high := interval.high * factor }

/-- The integer lies in the interval. -/
def holds (interval : Interval) (n : Nat) : Bool :=
  let scaled := n * interval.denominator
  if interval.isClosed then interval.low ≤ scaled && scaled ≤ interval.high
  else interval.low < scaled && scaled < interval.high

/-- The integer in the interval that is nearest to the value. -/
def nearest? (interval : Interval) (tie : Tie) : Option Nat :=
  let below := interval.value / interval.denominator
  let rest := interval.value % interval.denominator
  let prefersBelow :=
    2 * rest < interval.denominator ∨
      (2 * rest = interval.denominator ∧ tie.prefersLower below)
  match interval.holds below, interval.holds (below + 1) with
  | true, true => some (if prefersBelow then below else below + 1)
  | true, false => some below
  | false, true => some (below + 1)
  | false, false => none

/-- The first decimal in the interval, from the given power of ten
downwards. -/
def search (interval : Interval) (tie : Tie) (exponent : Int) : Nat → Digits
  | 0 => ⟨0, 0⟩
  | fuel + 1 =>
    match (interval.inPowers exponent).nearest? tie with
    | some digits => ⟨digits, exponent⟩
    | none => interval.search tie (exponent - 1) fuel

end Interval

namespace Binary

/-- The reals that round to the number.  The ends count if the mantissa is
even. -/
def interval (number : Binary) : Interval :=
  let up := Nat.pow 2 number.exponent.toNat
  let quarter := number.mantissa * 4
  { low := (quarter - if number.isNarrowBelow then 1 else 2) * up
    value := quarter * up
    high := (quarter + 2) * up
    denominator := 4 * Nat.pow 2 (-number.exponent).toNat
    isClosed := number.mantissa % 2 == 0 }

/-- The shortest decimal that rounds to the number. -/
def shortest (number : Binary) (tie : Tie) : Digits :=
  let interval := number.interval
  let top := (interval.value / interval.denominator).log2 + 1
  interval.search tie top (top + (-number.exponent).toNat + 3)

/-- The number without its sign, if it is finite and not zero. -/
def ofSingle? (x : Float32) : Option Binary :=
  let bits := x.toBits.toNat
  let fraction : Nat := bits % 0x800000
  let biased : Nat := bits / 0x800000 % 0x100
  if biased = 255 then none
  else if biased = 0 then
    if fraction = 0 then none else some ⟨fraction, -149, false⟩
  else
    some ⟨fraction + 0x800000, (biased : Int) - 150,
      fraction == 0 && 1 < biased⟩

end Binary

/-- The number carries a minus sign, zero included. -/
def isNegative (x : Float32) : Bool :=
  0x80000000 ≤ x.toBits.toNat

/-- The shortest digits of a finite number without its sign. -/
def shortestDigits (x : Float32) (tie : Tie) : Digits :=
  match Binary.ofSingle? x with
  | some number => number.shortest tie
  | none => ⟨0, 0⟩

end Flowchart.Decimal
