import Schematic.Decimal.Double

/-!
# Reading decimals

    number  =  [ sign ] ( 'inf' | 'infinity' | 'nan' | decimal )
    decimal =  digits [ '.' [ digits ] ] [ exponent ]  |  '.' digits [ exponent ]
    exponent = ( 'e' | 'E' ) [ sign ] digits
    sign    =  '+' | '-'

The words may be written in either case. A decimal is read as the floating-point number nearest
to it.
-/

namespace Schematic.Decimal

/-- The number that digits write. -/
def natOfDigits (digits : List Char) : Nat :=
  digits.foldl (fun n c => 10 * n + (c.toNat - '0'.toNat)) 0

/-- Takes a sign off a text. -/
def splitSign : List Char → Bool × List Char
  | '+' :: text => (false, text)
  | '-' :: text => (true, text)
  | text => (false, text)

/-- The exponent that a text is; no text is none, that is zero. -/
def exponent? : List Char → Option Int
  | [] => some 0
  | c :: text =>
    let (negative, digits) := splitSign text
    if (c = 'e' ∨ c = 'E') ∧ digits ≠ [] ∧ digits.all Char.isDigit then
      let size : Int := natOfDigits digits
      some (if negative then -size else size)
    else none

/-- The number nearest to `mantissa * 10 ^ exponent`. What is far out of range is not computed. -/
def scaled (negative : Bool) (mantissa : Nat) (exponent : Int) : Double :=
  let reach := (Nat.repr mantissa).length + exponent
  if mantissa = 0 ∨ reach < -330 then .finite negative 0
  else if 330 < reach then .infinite negative
  else .ofQuotient negative (mantissa * Nat.pow 10 exponent.toNat)
      (Nat.pow 10 (-exponent).toNat)

/-- The decimal without a sign that a text is. -/
def unsigned? (negative : Bool) (text : List Char) : Option Double :=
  let whole := text.takeWhile Char.isDigit
  let afterWhole := text.dropWhile Char.isDigit
  let (fraction, rest) := match afterWhole with
    | '.' :: text => (text.takeWhile Char.isDigit, text.dropWhile Char.isDigit)
    | text => ([], text)
  if whole = [] ∧ fraction = [] then none
  else
    (exponent? rest).map fun exponent =>
      scaled negative (natOfDigits (whole ++ fraction)) (exponent - fraction.length)

/-- The number that a text is. -/
def read? (text : String) : Option Float :=
  let (negative, text) := splitSign text.toList
  let number : Option Double := match String.ofList (text.map Char.toLower) with
    | "inf" | "infinity" => some (.infinite negative)
    | "nan" => some .notANumber
    | _ => unsigned? negative text
  number.map Double.toFloat

end Schematic.Decimal
