import Schematic.Scalar

/-!
# Rational numbers to measure with

Exact arithmetic: every scalar is a finite number, and the order that sorts is the usual one.
-/

namespace Schematic

instance : Scalar Rat where
  natCast n := n
  decidableLT := inferInstance
  order a b := if a < b then .lt else if b < a then .gt else .eq
  isNumber _ := true
  isFinite _ := true

namespace Scalar

@[simp] theorem isNumber_rat (a : Rat) : isNumber a = true := rfl

@[simp] theorem isFinite_rat (a : Rat) : isFinite a = true := rfl

end Scalar

end Schematic
