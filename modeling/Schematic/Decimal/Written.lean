import Schematic.Decimal.Shortest

/-!
# How a real number is written

The shortest decimal that reads back, with at least one place after the point. Numbers from
`1e-5` up to below `1e16` are written out; the others with one digit before the point and a
power of ten.
-/

namespace Schematic.Decimal

/-- So many zeros. -/
def zeros (count : Nat) : List Char := List.replicate count '0'

/-- A decimal's digits without the zeros at the end, and the place of its point, counted from the
first digit. -/
def significant (decimal : Digits) : List Char × Int :=
  let digits := (Nat.repr decimal.number).toList
  ((digits.reverse.dropWhile (· = '0')).reverse, digits.length + decimal.exponent)

/-- Digits written out, with the point where it belongs. -/
def plain (digits : List Char) (point : Int) : List Char :=
  if point ≤ 0 then '0' :: '.' :: (zeros (-point).toNat ++ digits)
  else
    let whole := point.toNat
    if whole < digits.length then digits.take whole ++ '.' :: digits.drop whole
    else digits ++ zeros (whole - digits.length) ++ ['.', '0']

/-- Digits with a power of ten. -/
def scientific (digits : List Char) (point : Int) : List Char :=
  let power := point - 1
  let sign := if power < 0 then '-' else '+'
  let size := (Nat.repr power.natAbs).toList
  match digits with
  | [] => []
  | [digit] => digit :: 'e' :: sign :: size
  | digit :: more => digit :: '.' :: (more ++ 'e' :: sign :: size)

/-- A magnitude as it is written. -/
def writtenUnits (units : Nat) : List Char :=
  if units = 0 then ['0', '.', '0']
  else
    let (digits, point) := significant (shortest units)
    if -5 < point ∧ point ≤ 16 then plain digits point else scientific digits point

/-- A number as it is written, if it is finite. -/
def written? (x : Float) : Option (List Char) :=
  match Double.ofFloat x with
  | .finite negative units =>
    some (if negative then '-' :: writtenUnits units else writtenUnits units)
  | _ => none

end Schematic.Decimal
