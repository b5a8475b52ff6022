/-!
# Scalars

The arithmetic that a layout needs.  Every computation on coordinates is
written once, for any scalar, so that it runs on machine numbers and can be
reasoned about on exact ones.  Maximum and minimum disregard an operand that is
not a number.
-/

namespace Flowchart

/-- Numbers for lengths and coordinates. -/
class Scalar (α : Type) extends Add α, Sub α, Mul α, Div α where
  /-- The scalar of a natural number. -/
  ofNat : Nat → α
  less : α → α → Bool
  /-- The larger operand, or the only one that is a number. -/
  larger : α → α → α
  /-- The smaller operand, or the only one that is a number. -/
  smaller : α → α → α
  /-- The order for sorting, which tells a negative zero from zero. -/
  order : α → α → Ordering
  isFinite : α → Bool

namespace Scalar

variable {α : Type} [Scalar α]

def zero : α :=
  ofNat 0

def half (x : α) : α :=
  x / ofNat 2

/-- Moves a number that lies outside the bounds to the nearer one. -/
def clamp (low high x : α) : α :=
  if less x low then low else if less high x then high else x

/-- The largest of zero and the given numbers. -/
def maximum (xs : List α) : α :=
  xs.foldl larger zero

/-- The smallest of the given numbers. -/
def minimum? : List α → Option α
  | [] => none
  | x :: xs => some (xs.foldl smaller x)

/-- The largest of the given numbers. -/
def maximum? : List α → Option α
  | [] => none
  | x :: xs => some (xs.foldl larger x)

/-- The sum, added up from the left. -/
def sum (xs : List α) : α :=
  xs.foldl (· + ·) zero

end Scalar

/-- The bits of a number as an integer that grows with the number.  With the
sign bit set, it runs down from minus one, which stands for a negative zero. -/
def Scalar.signedBits (signBit bits : Nat) : Int :=
  if bits < signBit then bits else (signBit : Int) - 1 - bits

/-- Single-precision numbers, rounded after each operation. -/
instance : Scalar Float32 where
  ofNat := Float32.ofNat
  less x y := x < y
  larger x y := if x.isNaN then y else if y.isNaN then x
    else if x < y then y else x
  smaller x y := if x.isNaN then y else if y.isNaN then x
    else if y < x then y else x
  order x y :=
    compare (Scalar.signedBits 2147483648 x.toBits.toNat)
      (Scalar.signedBits 2147483648 y.toBits.toNat)
  isFinite := Float32.isFinite

/-- Double-precision numbers, rounded after each operation. -/
instance : Scalar Float where
  ofNat := Float.ofNat
  less x y := x < y
  larger x y := if x.isNaN then y else if y.isNaN then x
    else if x < y then y else x
  smaller x y := if x.isNaN then y else if y.isNaN then x
    else if y < x then y else x
  order x y :=
    compare (Scalar.signedBits 9223372036854775808 x.toBits.toNat)
      (Scalar.signedBits 9223372036854775808 y.toBits.toNat)
  isFinite := Float.isFinite

end Flowchart
