/-!
# Floating-point numbers as whole numbers

Every finite floating-point number of 64 bits is a whole multiple of the smallest positive one,
`2 ^ -1074`. Counted in that unit its magnitude is a natural number, so text can be made of it,
and it can be made of text, in exact arithmetic.
-/

namespace Schematic.Decimal

/-- A floating-point number taken apart. -/
inductive Double where
  /-- It is no number. -/
  | notANumber
  /-- It is infinite. -/
  | infinite (negative : Bool)
  /-- It is finite: its sign, and its magnitude in units of `2 ^ -1074`. -/
  | finite (negative : Bool) (units : Nat)
  deriving DecidableEq, Repr

/-- How many units make one. -/
def unitsPerOne : Nat := Nat.pow 2 1074

/-- How many units lie between a magnitude and the next one above it. -/
def spacing (units : Nat) : Nat := Nat.pow 2 (units.log2 - 52)

/-- A quotient rounded to the nearest whole number, and to the even one of two. -/
def roundDiv (num den : Nat) : Nat :=
  let quotient := num / den
  let rest := num % den
  if den < 2 * rest ∨ (2 * rest = den ∧ quotient % 2 = 1) then quotient + 1 else quotient

namespace Double

/-- The bit that tells the sign. -/
def signBit : Nat := Nat.pow 2 63

/-- The bit before the fraction: the first bit of a magnitude of full length. -/
def leadingBit : Nat := Nat.pow 2 52

/-- The bits of infinity. -/
def infiniteBits : Nat := 2047 * leadingBit

/-- Takes a floating-point number apart. -/
def ofFloat (x : Float) : Double :=
  let bits := x.toBits.toNat
  let negative := signBit ≤ bits
  let exponent := bits / leadingBit % 2048
  let fraction := bits % leadingBit
  if exponent = 2047 then if fraction = 0 then infinite negative else notANumber
  else if exponent = 0 then finite negative fraction
  else finite negative ((leadingBit + fraction) * Nat.pow 2 (exponent - 1))

/-- The bits of a magnitude of at most 53 significant bits, that of infinity if it is too large. -/
def bitsOf (units : Nat) : Nat :=
  let shift := units.log2 - 52
  min (shift * leadingBit + units >>> shift) infiniteBits

/-- The number with the given sign and the bits of its magnitude. -/
def ofSignBits (negative : Bool) (bits : Nat) : Float :=
  Float.ofBits (UInt64.ofNat (if negative then signBit + bits else bits))

/-- Puts a floating-point number together. -/
def toFloat : Double → Float
  | notANumber => Float.ofNat 0 / Float.ofNat 0
  | infinite negative => ofSignBits negative infiniteBits
  | finite negative units => ofSignBits negative (bitsOf units)

/-- The number nearest to a quotient; of two, the one with an even last bit. -/
def ofQuotient (negative : Bool) (num den : Nat) : Double :=
  let step := spacing (num * unitsPerOne / den)
  finite negative (roundDiv (num * unitsPerOne) (den * step) * step)

end Double

end Schematic.Decimal
