import Mathlib
import Schematic.Decimal.Double

/-!
# Floating-point numbers taken apart

The bits of a number are its sign, its exponent and its fraction (`Double.toNat_toBits`). The
magnitude of a finite number has at most 53 significant bits (`Double.representable_of_ofFloat_eq`),
and the number can be put together again from it (`Double.toFloat_of_ofFloat_eq`).
-/

namespace Schematic.Decimal

theorem spacing_eq (units : Nat) : spacing units = 2 ^ (units.log2 - 52) := rfl

theorem spacing_pos (units : Nat) : 0 < spacing units := Nat.two_pow_pos _

namespace Double

theorem signBit_eq : signBit = 2 ^ 63 := rfl

theorem leadingBit_eq : leadingBit = 2 ^ 52 := rfl

/-- The magnitude of a finite number: below that of infinity, and with at most 53 significant
bits. -/
structure Representable (units : Nat) : Prop where
  /-- It is below the magnitude of infinity. -/
  log2_lt : units.log2 < 2098
  /-- It is a whole number of spaces. -/
  dvd : spacing units ∣ units

/-! ### Magnitudes -/

theorem log2_of_lt_leadingBit {fraction : Nat} (h : fraction < leadingBit) :
    fraction.log2 - 52 = 0 := by
  by_cases hzero : fraction = 0
  · rw [hzero]
    rfl
  · have hlt : fraction.log2 < 52 := (Nat.log2_lt hzero).2 h
    omega

theorem log2_leadingBit_add {fraction : Nat} (h : fraction < leadingBit) (shift : Nat) :
    ((leadingBit + fraction) * 2 ^ shift).log2 = 52 + shift := by
  have hpos : 0 < 2 ^ shift := Nat.two_pow_pos _
  have hne : (leadingBit + fraction) * 2 ^ shift ≠ 0 :=
    Nat.mul_ne_zero (by rw [leadingBit_eq]; omega) hpos.ne'
  rw [Nat.log2_eq_iff hne, Nat.pow_succ, Nat.pow_add, ← leadingBit_eq, Nat.mul_right_comm]
  exact ⟨Nat.mul_le_mul_right _ (Nat.le_add_right ..), Nat.mul_lt_mul_of_pos_right (by omega) hpos⟩

/-- The bits of a magnitude without its leading bit. -/
theorem bitsOf_fraction {fraction : Nat} (h : fraction < leadingBit) :
    bitsOf fraction = fraction := by
  have hle : fraction ≤ infiniteBits := by rw [infiniteBits]; omega
  simp only [bitsOf, log2_of_lt_leadingBit h, Nat.zero_mul, Nat.zero_add, Nat.shiftRight_zero]
  exact Nat.min_eq_left hle

/-- The bits of a magnitude of full length. -/
theorem bitsOf_leadingBit_add {fraction shift : Nat} (h : fraction < leadingBit)
    (hshift : shift < 2046) :
    bitsOf ((leadingBit + fraction) * 2 ^ shift) = (shift + 1) * leadingBit + fraction := by
  have hlog : ((leadingBit + fraction) * 2 ^ shift).log2 - 52 = shift := by
    rw [log2_leadingBit_add h, Nat.add_sub_cancel_left]
  have hle : shift * leadingBit + (leadingBit + fraction) ≤ infiniteBits := by
    rw [infiniteBits]
    nlinarith
  simp only [bitsOf, hlog, Nat.shiftRight_eq_div_pow, Nat.mul_div_cancel _ (Nat.two_pow_pos shift)]
  rw [Nat.min_eq_left hle, Nat.succ_mul, Nat.add_assoc]

/-! ### Bits -/

/-- The exponent of a floating-point number, as its bits have it. -/
def exponentOf (x : Float) : Nat := x.toBits.toNat / leadingBit % 2048

/-- The fraction of a floating-point number, as its bits have it. -/
def fractionOf (x : Float) : Nat := x.toBits.toNat % leadingBit

theorem exponentOf_lt (x : Float) : exponentOf x < 2048 := Nat.mod_lt _ (by decide)

theorem fractionOf_lt (x : Float) : fractionOf x < leadingBit := Nat.mod_lt _ (by decide)

/-- The bits of a number: its sign, its exponent and its fraction. -/
theorem toNat_toBits (x : Float) :
    x.toBits.toNat = if signBit ≤ x.toBits.toNat then
        signBit + (exponentOf x * leadingBit + fractionOf x)
      else exponentOf x * leadingBit + fractionOf x := by
  have hlt : x.toBits.toNat < 2 ^ 64 := x.toBits.toNat_lt
  rw [exponentOf, fractionOf, signBit_eq, leadingBit_eq]
  split <;> omega

/-- The magnitude of a finite floating-point number. -/
def unitsOf (x : Float) : Nat :=
  if exponentOf x = 0 then fractionOf x
  else (leadingBit + fractionOf x) * Nat.pow 2 (exponentOf x - 1)

theorem ofFloat_of_exponentOf_ne {x : Float} (h : exponentOf x ≠ 2047) :
    ofFloat x = .finite (signBit ≤ x.toBits.toNat) (unitsOf x) := by
  unfold unitsOf exponentOf fractionOf at *
  rw [ofFloat, if_neg h]
  split <;> rfl

theorem bitsOf_unitsOf {x : Float} (h : exponentOf x ≠ 2047) :
    bitsOf (unitsOf x) = exponentOf x * leadingBit + fractionOf x := by
  have hlt := exponentOf_lt x
  rw [unitsOf]
  split
  case isTrue hzero => rw [bitsOf_fraction (fractionOf_lt x), hzero, Nat.zero_mul, Nat.zero_add]
  case isFalse hzero =>
    have hsucc : exponentOf x - 1 + 1 = exponentOf x := by omega
    have hbits := bitsOf_leadingBit_add (fractionOf_lt x) (show exponentOf x - 1 < 2046 by omega)
    rw [hsucc] at hbits
    exact hbits

/-! ### Finite numbers -/

open Float.Model (Format)
open Float.Model.UnpackedFloat

theorem ofBits_toBits (x : Float) : Float.ofBits x.toBits = x := by
  have h := pack_unpack_of_valid x.toModel.valid (by decide)
  rw [Float.ofBits, Float.toBits, Float.Model.ofBits, Float.Model.pack]
  congr 2
  simp only [h]

theorem toNat_unpackExponent (x : Float) :
    (@unpackExponent Format.binary64 x.toBits.toBitVec).toNat = exponentOf x := by
  rw [unpackExponent_def, BitVec.extractLsb'_toNat, Nat.shiftRight_eq_div_pow]
  rfl

/-- A finite number does not have the exponent of infinity. -/
theorem exponentOf_ne_of_isFinite {x : Float} (h : x.isFinite = true) : exponentOf x ≠ 2047 := by
  intro hexponent
  have hones : @unpackExponent Format.binary64 x.toModel.toBits.toBitVec = -1#11 :=
    BitVec.eq_of_toNat_eq ((toNat_unpackExponent x).trans hexponent)
  rw [Float.isFinite, Float.Model.isFinite, Float.Model.unpack, unpack, if_pos hones] at h
  split at h <;> cases h

theorem exponentOf_ne_of_ofFloat_eq {x : Float} {negative : Bool} {units : Nat}
    (h : ofFloat x = .finite negative units) : exponentOf x ≠ 2047 := by
  intro hexponent
  rw [exponentOf] at hexponent
  rw [ofFloat, if_pos hexponent] at h
  split at h <;> cases h

theorem representable_unitsOf {x : Float} (h : exponentOf x ≠ 2047) :
    Representable (unitsOf x) := by
  have hfraction := fractionOf_lt x
  rw [unitsOf]
  split
  case isTrue hzero =>
    have hlog := log2_of_lt_leadingBit hfraction
    exact { log2_lt := by omega, dvd := by rw [spacing_eq, hlog]; exact Nat.one_dvd _ }
  case isFalse hzero =>
    have hlt := exponentOf_lt x
    have hlog := log2_leadingBit_add hfraction (exponentOf x - 1)
    have hshift : 52 + (exponentOf x - 1) - 52 = exponentOf x - 1 := Nat.add_sub_cancel_left ..
    rw [← Nat.pow_eq] at hlog
    exact
      { log2_lt := by omega
        dvd := by
          rw [spacing_eq, hlog, hshift]
          exact Nat.dvd_mul_left .. }

theorem representable_of_ofFloat_eq {x : Float} {negative : Bool} {units : Nat}
    (h : ofFloat x = .finite negative units) : Representable units := by
  have hexponent := exponentOf_ne_of_ofFloat_eq h
  rw [ofFloat_of_exponentOf_ne hexponent] at h
  cases h
  exact representable_unitsOf hexponent

/-- A number that is taken apart is put together again. -/
theorem toFloat_of_ofFloat_eq {x : Float} {negative : Bool} {units : Nat}
    (h : ofFloat x = .finite negative units) : (finite negative units).toFloat = x := by
  have hexponent := exponentOf_ne_of_ofFloat_eq h
  rw [← h, ofFloat_of_exponentOf_ne hexponent, toFloat, ofSignBits, bitsOf_unitsOf hexponent]
  simp only [decide_eq_true_eq]
  rw [← toNat_toBits, UInt64.ofNat_toNat, ofBits_toBits]

end Double

end Schematic.Decimal
