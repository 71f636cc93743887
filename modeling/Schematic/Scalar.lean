/-!
# Numbers to measure with

What a drawing needs of the numbers it is measured in. A diagram is laid out in `Float`; the
class lets the same definitions be read in exact arithmetic too. A scalar may be no number at
all (the `NaN` of `Float`): no comparison with it holds, and `larger` and `smaller` pass it over.
-/

namespace Schematic

/-- The numbers that a drawing is measured in. -/
class Scalar (α : Type) extends
    Add α, Sub α, Mul α, Div α, Neg α, LT α, NatCast α where
  /-- Comparisons can be run. -/
  decidableLT : DecidableLT α
  /-- The order that sorts scalars, numbers or not. -/
  order : α → α → Ordering
  /-- The scalar is a number. -/
  isNumber : α → Bool
  /-- The scalar is a number and finite. -/
  isFinite : α → Bool

attribute [reducible, instance] Scalar.decidableLT

namespace Scalar

variable {α : Type} [Scalar α]

/-- The larger of two scalars; the first if they are equal, and the other one of a number and
what is no number. -/
def larger (a b : α) : α := if isNumber a = false ∨ a < b then b else a

/-- The smaller of two scalars, with the same rules. -/
def smaller (a b : α) : α := if isNumber a = false ∨ b < a then b else a

/-- A whole number. -/
def whole (n : Nat) : α := n

/-- Nothing. -/
def zero : α := whole 0

/-- A half of a scalar. -/
def half (a : α) : α := a / whole 2

/-- The sum of a list, from left to right. It starts from the first item and not from `zero`, so
that a list of `-0.0` alone sums to `-0.0`; of no items it is `zero`. -/
def sum : List α → α
  | [] => zero
  | a :: as => as.foldl (· + ·) a

end Scalar

/-! ### Floating-point numbers -/

/-- Where a floating-point number stands in the total order of its bit patterns: from the
negative `NaN`s over the numbers, with `-0.0` before `0.0`, to the positive `NaN`s. -/
def Scalar.standing (x : Float) : Int :=
  let bits := x.toBits.toNat
  if bits < 0x8000000000000000 then bits else 0x7FFFFFFFFFFFFFFF - (bits : Int)

instance : Scalar Float where
  natCast := Float.ofNat
  decidableLT := inferInstance
  order a b := compare (Scalar.standing a) (Scalar.standing b)
  isNumber a := !a.isNaN
  isFinite := fun a => a.isFinite

end Schematic
