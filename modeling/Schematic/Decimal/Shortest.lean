import Schematic.Decimal.Double

/-!
# The shortest decimal that reads back

A decimal reads back as a floating-point number if it is nearer to it than to any other, or
half-way to the next one and the number's last bit is even. Of the decimals that read back as a
given number, `shortest` finds one with the fewest digits, and the nearest of these; if two are
equally near, the one with an even last digit. It tries one digit, then two, and so on: among the
decimals with so many digits it is enough to look at the two next to the number.
-/

namespace Schematic.Decimal

/-- A positive decimal: digits times a power of ten. -/
structure Digits where
  /-- The digits, as a number. -/
  number : Nat
  /-- The power of ten. -/
  exponent : Int
  deriving DecidableEq, Repr

/-- The power of ten that a positive quotient reaches: `10 ^ k ≤ num / den < 10 ^ (k + 1)`. -/
def leadingExponent (num den : Nat) : Int :=
  if den ≤ num then ((Nat.repr (num / den)).length : Int) - 1
  else -((Nat.repr ((den + num - 1) / num - 1)).length : Int)

/-- The magnitudes that read back as a given one, in quarters of a unit. -/
structure Interval where
  /-- The lower end. -/
  low : Nat
  /-- The magnitude itself. -/
  value : Nat
  /-- The upper end. -/
  high : Nat
  /-- The ends belong to it. -/
  closed : Bool
  deriving Repr

namespace Interval

/-- The interval of a magnitude. Just above a power of two the numbers below lie closer. -/
def ofUnits (units : Nat) : Interval :=
  let step := spacing units
  let below := if units = Nat.pow 2 units.log2 ∧ 1 < step then step else 2 * step
  { low := 4 * units - below
    value := 4 * units
    high := 4 * units + 2 * step
    closed := units / step % 2 = 0 }

/-- The interval with all its ends multiplied. -/
def scale (interval : Interval) (factor : Nat) : Interval :=
  { interval with
    low := interval.low * factor
    value := interval.value * factor
    high := interval.high * factor }

/-- A magnitude lies in the interval. -/
def holds (interval : Interval) (magnitude : Nat) : Bool :=
  if interval.closed then interval.low ≤ magnitude ∧ magnitude ≤ interval.high
  else interval.low < magnitude ∧ magnitude < interval.high

/-- The multiple of `step` in the interval that is nearest to its value, one of the two next to
the value. -/
def nearest? (interval : Interval) (step : Nat) : Option Nat :=
  let below := interval.value / step
  let above := below + 1
  let low := interval.holds (below * step)
  let high := interval.holds (above * step)
  let rest := 2 * (interval.value % step)
  let even := if below % 2 = 0 then below else above
  match low, high with
  | false, false => none
  | true, false => some below
  | false, true => some above
  | true, true => some (if rest < step then below else if step < rest then above else even)

end Interval

/-- The decimal of at most so many digits that reads back as a magnitude and is the nearest. -/
def ofLength? (units length : Nat) : Option Digits :=
  let exponent := leadingExponent units unitsPerOne + 1 - length
  let interval := (Interval.ofUnits units).scale (Nat.pow 10 (-exponent).toNat)
  (interval.nearest? (4 * unitsPerOne * Nat.pow 10 exponent.toNat)).map (⟨·, exponent⟩)

/-- The shortest decimal that reads back as a magnitude. Seventeen digits always do. -/
def shortest (units : Nat) : Digits :=
  ((List.range' 1 17).findSome? (ofLength? units)).getD ⟨0, 0⟩

end Schematic.Decimal
