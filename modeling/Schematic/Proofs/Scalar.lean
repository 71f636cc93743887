import Mathlib.Algebra.Order.Ring.Rat
import Schematic.Scalar.Rational

/-!
# Rational scalars

In exact arithmetic the operations of a scalar are the usual ones.
-/

namespace Schematic.Scalar

@[simp] theorem larger_rat (a b : Rat) : larger a b = max a b := by
  rw [larger, max_def_lt]
  simp

@[simp] theorem smaller_rat (a b : Rat) : smaller a b = min a b := by
  rw [smaller, min_comm, min_def_lt]
  simp

/-- The largest of some scalars is at least as large as each of them. -/
theorem le_foldl_larger {a start : Rat} {others : List Rat} (h : a ∈ start :: others) :
    a ≤ others.foldl larger start := by
  have hmax : others.foldl larger start = others.foldl max start := by
    rw [show (larger : Rat → Rat → Rat) = max from funext₂ larger_rat]
  rw [hmax]
  exact (List.max?_eq_some_iff.1 List.max?_cons').2 a h

@[simp] theorem whole_rat (n : Nat) : (whole n : Rat) = n := rfl

@[simp] theorem zero_rat : (zero : Rat) = 0 := rfl

@[simp] theorem half_rat (a : Rat) : half a = a / 2 := rfl

@[simp] theorem sum_rat (as : List Rat) : sum as = as.sum := by
  cases as with
  | nil => rfl
  | cons a as =>
    rw [List.sum_eq_foldl, List.foldl_cons, zero_add]
    rfl

theorem isLE_order_rat {a b : Rat} : (order a b).isLE = true ↔ a ≤ b := by
  show (if a < b then Ordering.lt else if b < a then .gt else .eq).isLE = true ↔ a ≤ b
  split
  · next hlt => simp [hlt.le]
  · next hlt =>
    split
    · next hgt => simp [hgt]
    · next hgt => simp [not_lt.1 hgt]

end Schematic.Scalar
