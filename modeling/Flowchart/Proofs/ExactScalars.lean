import Flowchart.Geometry
import Mathlib.Algebra.Order.Field.Rat
import Mathlib.Tactic.Linarith

/-!
# Exact scalars

Rational numbers are scalars whose operations are exact, so that what a layout
does on paper can be told apart from rounding.  All of them are finite, and the
larger and the smaller of two are their maximum and minimum.
-/

namespace Flowchart

instance : Scalar ℚ where
  ofNat := Nat.cast
  less x y := decide (x < y)
  larger := max
  smaller := min
  order := compare
  isFinite _ := true

namespace Scalar

variable {x y : ℚ} {xs : List ℚ}

@[simp] theorem zero_rat : (zero : ℚ) = 0 :=
  Nat.cast_zero

@[simp] theorem ofNat_rat (n : ℕ) : (ofNat n : ℚ) = n :=
  rfl

@[simp] theorem half_rat (x : ℚ) : half x = x / 2 :=
  rfl

@[simp] theorem less_rat : less x y = true ↔ x < y :=
  decide_eq_true_iff

@[simp] theorem larger_rat (x y : ℚ) : larger x y = max x y :=
  rfl

@[simp] theorem smaller_rat (x y : ℚ) : smaller x y = min x y :=
  rfl

@[simp] theorem order_rat (x y : ℚ) : order x y = compare x y :=
  rfl

@[simp] theorem isFinite_rat (x : ℚ) : isFinite x = true :=
  rfl

/-! ### The largest and the smallest of several numbers -/

theorem le_maximum (hx : x = 0 ∨ x ∈ xs) : x ≤ maximum xs := by
  have hlargest : (zero :: xs).max? = some (maximum xs) := List.max?_cons'
  refine (List.max?_eq_some_iff.mp hlargest).2 x ?_
  rwa [zero_rat, List.mem_cons]

theorem maximum_nonneg (xs : List ℚ) : 0 ≤ maximum xs :=
  le_maximum (.inl rfl)

/-- The largest of several lengths is one of them. -/
theorem maximum_mem (hsome : xs ≠ []) (hnonneg : ∀ x ∈ xs, 0 ≤ x) :
    maximum xs ∈ xs := by
  have hlargest : (zero :: xs).max? = some (maximum xs) := List.max?_cons'
  rcases List.mem_cons.mp (List.max?_eq_some_iff.mp hlargest).1 with hzero | hmem
  · obtain ⟨x, hx⟩ := List.exists_mem_of_ne_nil xs hsome
    have hle := le_maximum (.inr hx)
    rw [hzero, zero_rat] at hle ⊢
    rwa [← le_antisymm hle (hnonneg x hx)]
  · exact hmem

theorem maximum?_rat (xs : List ℚ) : maximum? xs = xs.max? := by
  cases xs with
  | nil => rfl
  | cons first rest => exact List.max?_cons'.symm

theorem minimum?_rat (xs : List ℚ) : minimum? xs = xs.min? := by
  cases xs with
  | nil => rfl
  | cons first rest => exact List.min?_cons'.symm

theorem le_of_maximum? (h : maximum? xs = some y) (hx : x ∈ xs) : x ≤ y := by
  rw [maximum?_rat] at h
  exact (List.max?_eq_some_iff.mp h).2 x hx

theorem le_of_minimum? (h : minimum? xs = some y) (hx : x ∈ xs) : y ≤ x := by
  rw [minimum?_rat] at h
  exact (List.min?_eq_some_iff.mp h).2 x hx

theorem mem_of_maximum? (h : maximum? xs = some y) : y ∈ xs := by
  rw [maximum?_rat] at h
  exact (List.max?_eq_some_iff.mp h).1

theorem mem_of_minimum? (h : minimum? xs = some y) : y ∈ xs := by
  rw [minimum?_rat] at h
  exact (List.min?_eq_some_iff.mp h).1

end Scalar

end Flowchart
