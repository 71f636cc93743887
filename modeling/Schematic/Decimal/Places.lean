import Schematic.Decimal.Double

/-!
# Decimals with a fixed number of places

The exact value of a floating-point number, rounded to so many places after the point. A value
half-way between two such decimals goes to the one with an even last digit.
-/

namespace Schematic.Decimal

/-- The digits of a number, with zeros before them up to a length. -/
def digitsOfLength (length n : Nat) : String :=
  let digits := (Nat.repr n).toList
  String.ofList (List.replicate (length - digits.length) '0' ++ digits)

/-- A number of hundredths, thousandths and so on, with a point before its last places. -/
def pointed (places n : Nat) : String :=
  let unit := Nat.pow 10 places
  let whole := Nat.repr (n / unit)
  if places = 0 then whole else whole ++ "." ++ digitsOfLength places (n % unit)

/-- A number with so many places. The sign of what rounds to nothing stays. -/
def fixed (places : Nat) (x : Float) : String :=
  match Double.ofFloat x with
  | .notANumber => "NaN"
  | .infinite negative => if negative then "-inf" else "inf"
  | .finite negative units =>
    (if negative then "-" else "") ++
      pointed places (roundDiv (units * Nat.pow 10 places) unitsPerOne)

end Schematic.Decimal
