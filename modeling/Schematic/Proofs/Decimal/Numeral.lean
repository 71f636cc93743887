import Schematic.Decimal.Numeral
import Schematic.Proofs.Decimal.Rounding
import Schematic.Proofs.Json

/-!
# Reading decimals back

A decimal in the interval of a number is within range, and is read as that number
(`scaled_eq_of_readsAs`); zeros at the end of its mantissa count as much as in its exponent
(`readsAs_mul_ten_pow`). A text of the forms that numbers are written in, a `Numeral`, is read as
the mantissa and the exponent that stand in it (`Numeral.unsigned?_eq`).
-/

namespace Schematic.Decimal

theorem unitsPerOne_pos : 0 < unitsPerOne := by decide +kernel

-- The powers of ten are given as some powers, so that nothing computes them later.

/-- How many units make one, against a power of ten. -/
theorem exists_unitsPerOne_le : ∃ places ≤ 324, 2 * unitsPerOne ≤ 10 ^ places :=
  ⟨324, le_rfl, by decide +kernel⟩

/-- How large a number is, against a power of ten. -/
theorem Double.Representable.exists_lt {units : Nat} (h : Double.Representable units) :
    ∃ places ≤ 309, 2 * units < 10 ^ places * unitsPerOne := by
  obtain ⟨most, hmost, hle⟩ : ∃ most ≥ 2098, 2 * 2 ^ most ≤ 10 ^ 309 * unitsPerOne :=
    ⟨2098, le_rfl, by decide +kernel⟩
  have hlt : units < 2 ^ (units.log2 + 1) := Nat.lt_log2_self
  have hpow : 2 ^ (units.log2 + 1) ≤ 2 ^ most :=
    Nat.pow_le_pow_right (by decide) ((Nat.succ_le_of_lt h.log2_lt).trans hmost)
  exact ⟨309, le_rfl, (Nat.mul_lt_mul_of_pos_left (hlt.trans_le hpow) two_pos).trans_le hle⟩

/-! ### Powers of ten -/

theorem length_repr_pos (n : Nat) : 0 < (Nat.repr n).length := by
  rw [← String.length_toList, Nat.toList_repr]
  exact Nat.length_toDigits_pos

theorem lt_ten_pow_length_repr (n : Nat) : n < 10 ^ (Nat.repr n).length :=
  (Nat.length_repr_le_iff (length_repr_pos n)).1 le_rfl

theorem ten_pow_length_repr_le {n : Nat} (hpos : 0 < n) : 10 ^ ((Nat.repr n).length - 1) ≤ n := by
  by_contra! hlt
  obtain hone | hmore : (Nat.repr n).length - 1 = 0 ∨ 0 < (Nat.repr n).length - 1 := by omega
  · rw [hone] at hlt
    omega
  · have := (Nat.length_repr_le_iff hmore).2 hlt
    omega

theorem mul_ten_pow_le {a b ups downs more others : Nat} (h : a * 10 ^ ups ≤ b * 10 ^ downs)
    (heq : more + downs = others + ups) : a * 10 ^ more ≤ b * 10 ^ others := by
  refine Nat.le_of_mul_le_mul_right ?_ (Nat.pow_pos (n := downs) (show 0 < 10 by decide))
  calc a * 10 ^ more * 10 ^ downs = a * 10 ^ ups * 10 ^ others := by
        rw [Nat.mul_assoc, Nat.mul_assoc, ← Nat.pow_add, ← Nat.pow_add, heq, Nat.add_comm others]
    _ ≤ b * 10 ^ downs * 10 ^ others := Nat.mul_le_mul_right _ h
    _ = b * 10 ^ others * 10 ^ downs := Nat.mul_right_comm ..

/-! ### What a decimal is read as -/

/-- A decimal lies in the interval of a magnitude. -/
def ReadsAs (mantissa : Nat) (exponent : Int) (units : Nat) : Prop :=
  ((Interval.ofUnits units).scale (10 ^ (-exponent).toNat)).holds
    (4 * (mantissa * 10 ^ exponent.toNat * unitsPerOne)) = true

/-- Zeros at the end of a mantissa count as much as in the exponent. -/
theorem readsAs_mul_ten_pow {mantissa zeros units : Nat} {exponent : Int} :
    ReadsAs (mantissa * 10 ^ zeros) exponent units ↔ ReadsAs mantissa (exponent + zeros) units := by
  obtain ⟨both, hnum, hden⟩ : ∃ both, zeros + exponent.toNat = (exponent + zeros).toNat + both ∧
      (-exponent).toNat = (-(exponent + zeros)).toNat + both :=
    ⟨zeros + exponent.toNat - (exponent + zeros).toNat, by omega, by omega⟩
  have hten : 4 * (mantissa * 10 ^ zeros * 10 ^ exponent.toNat * unitsPerOne) =
      4 * (mantissa * 10 ^ (exponent + zeros).toNat * unitsPerOne) * 10 ^ both := by
    rw [Nat.mul_assoc mantissa, ← Nat.pow_add, hnum, Nat.pow_add]
    ring
  rw [ReadsAs, ReadsAs, hten, hden, Nat.pow_add]
  exact Interval.holds_scale_mul (Nat.pow_pos (by decide))

section Reading

variable {mantissa units : Nat} {exponent : Int} (h : ReadsAs mantissa exponent units)
  (hunits : Double.Representable units) (hpos : 0 < units)

include h hunits hpos

/-- It is not far below the smallest number. -/
theorem ten_pow_le_of_readsAs :
    ∃ places ≤ 324, 10 ^ (-exponent).toNat ≤ mantissa * 10 ^ exponent.toNat * 10 ^ places := by
  obtain ⟨places, hplaces, hunit⟩ := exists_unitsPerOne_le
  refine ⟨places, hplaces, ?_⟩
  have hlow := (Interval.bounds_of_holds h).1
  have hspace := Nat.mul_le_mul_right (10 ^ (-exponent).toNat) (Nat.le_of_dvd hpos hunits.dvd)
  have hone := Nat.mul_le_mul_right (10 ^ (-exponent).toNat) (Nat.succ_le_of_lt hpos)
  have hmul := Nat.mul_le_mul_left (mantissa * 10 ^ exponent.toNat) hunit
  linarith

/-- It is not far above the largest number. -/
theorem lt_ten_pow_of_readsAs :
    ∃ places ≤ 309, mantissa * 10 ^ exponent.toNat < 10 ^ places * 10 ^ (-exponent).toNat := by
  obtain ⟨places, hplaces, hunit⟩ := hunits.exists_lt
  refine ⟨places, hplaces, Nat.lt_of_mul_lt_mul_right (a := unitsPerOne) ?_⟩
  have hhigh := (Interval.bounds_of_holds h).2
  have hspace := Nat.mul_le_mul_right (10 ^ (-exponent).toNat) (Nat.le_of_dvd hpos hunits.dvd)
  have hten : 0 < 10 ^ (-exponent).toNat := Nat.pow_pos (by decide)
  have hmul := Nat.mul_lt_mul_of_pos_right hunit hten
  linarith [Nat.zero_le (units * 10 ^ (-exponent).toNat)]

theorem mantissa_pos_of_readsAs : 0 < mantissa := by
  obtain ⟨places, -, hle⟩ := ten_pow_le_of_readsAs h hunits hpos
  by_contra hzero
  rw [Nat.eq_zero_of_not_pos hzero, Nat.zero_mul, Nat.zero_mul] at hle
  exact absurd hle (Nat.not_le_of_lt (Nat.pow_pos (by decide)))

theorem neg_le_reach_of_readsAs : -330 ≤ ((Nat.repr mantissa).length : Int) + exponent := by
  obtain ⟨places, hplaces, hle⟩ := ten_pow_le_of_readsAs h hunits hpos
  have hlt : 10 ^ (-exponent).toNat <
      10 ^ ((Nat.repr mantissa).length + exponent.toNat + places) := by
    rw [Nat.pow_add, Nat.pow_add]
    refine hle.trans_lt (Nat.mul_lt_mul_of_pos_right (Nat.mul_lt_mul_of_pos_right ?_ ?_) ?_)
    · exact lt_ten_pow_length_repr mantissa
    · exact Nat.pow_pos (by decide)
    · exact Nat.pow_pos (by decide)
  have := (Nat.pow_lt_pow_iff_right (by decide)).1 hlt
  omega

theorem reach_le_of_readsAs : ((Nat.repr mantissa).length : Int) + exponent ≤ 330 := by
  obtain ⟨places, hplaces, hlt⟩ := lt_ten_pow_of_readsAs h hunits hpos
  have hpow : 10 ^ ((Nat.repr mantissa).length - 1 + exponent.toNat) <
      10 ^ (places + (-exponent).toNat) := by
    rw [Nat.pow_add, Nat.pow_add]
    have hten := ten_pow_length_repr_le (mantissa_pos_of_readsAs h hunits hpos)
    exact (Nat.mul_le_mul_right _ hten).trans_lt hlt
  have := (Nat.pow_lt_pow_iff_right (by decide)).1 hpow
  omega

/-- A decimal in the interval of a number is read as that number. -/
theorem scaled_eq_of_readsAs (negative : Bool) :
    scaled negative mantissa exponent = .finite negative units := by
  have hmantissa := mantissa_pos_of_readsAs h hunits hpos
  have hbelow := neg_le_reach_of_readsAs h hunits hpos
  have habove := reach_le_of_readsAs h hunits hpos
  rw [scaled, if_neg (by omega), if_neg (by omega)]
  exact Double.ofQuotient_eq_of_holds hunits hpos (Nat.pow_pos (by decide)) h negative

end Reading

/-! ### Texts of decimals -/

theorem natOfDigits_eq_ofDigitChars (digits : List Char) :
    natOfDigits digits = Nat.ofDigitChars 10 digits 0 := rfl

theorem natOfDigits_repr (n : Nat) : natOfDigits (Nat.repr n).toList = n := by
  rw [natOfDigits_eq_ofDigitChars, Nat.toList_repr, Nat.ofDigitChars_ten_toDigits]

theorem repr_ne_nil (n : Nat) : (Nat.repr n).toList ≠ [] := by
  rw [Nat.toList_repr]
  exact Nat.toDigits_ne_nil

/-- A power of ten as it is written behind digits. -/
def powerChars (power : Int) : List Char :=
  'e' :: (if power < 0 then '-' else '+') :: (Nat.repr power.natAbs).toList

theorem exponent?_powerChars (power : Int) : exponent? (powerChars power) = some power := by
  have hall : (Nat.repr power.natAbs).toList.all Char.isDigit = true :=
    List.all_eq_true.2 fun _ => Json.isDigit_of_mem_repr
  by_cases hpower : power < 0
  · simp only [powerChars, exponent?, if_pos hpower, splitSign, natOfDigits_repr]
    rw [if_pos ⟨.inl trivial, repr_ne_nil _, hall⟩, if_pos trivial,
      Int.ofNat_natAbs_of_nonpos hpower.le, Int.neg_neg]
  · simp only [powerChars, exponent?, if_neg hpower, splitSign, natOfDigits_repr]
    rw [if_pos ⟨.inl trivial, repr_ne_nil _, hall⟩, if_neg Bool.false_ne_true,
      Int.natAbs_of_nonneg (not_lt.1 hpower)]

theorem isDigit_of_mem_head?_powerChars (power : Int) :
    ∀ c ∈ (powerChars power).head?, c.isDigit = false := by
  rintro c ⟨⟩
  rfl

section Texts

variable {digits whole fraction rest : List Char} (negative : Bool)

theorem dropWhile_digits_append (hdigits : ∀ c ∈ digits, c.isDigit = true)
    (hrest : ∀ c ∈ rest.head?, c.isDigit = false) :
    (digits ++ rest).dropWhile Char.isDigit = rest := by
  have hsplit : (digits ++ rest).takeWhile Char.isDigit ++ (digits ++ rest).dropWhile Char.isDigit =
      digits ++ rest := List.takeWhile_append_dropWhile
  rw [Json.takeWhile_append_of_head? hdigits hrest] at hsplit
  exact List.append_cancel_left hsplit

theorem unsigned?_append_power (hne : digits ≠ []) (hdigits : ∀ c ∈ digits, c.isDigit = true)
    (power : Int) :
    unsigned? negative (digits ++ powerChars power) =
      some (scaled negative (natOfDigits digits) power) := by
  have hpower := isDigit_of_mem_head?_powerChars power
  have hpoint : ∀ text, powerChars power ≠ '.' :: text := by
    intro text htext
    exact absurd (List.cons.inj htext).1 (by decide)
  simp only [unsigned?, Json.takeWhile_append_of_head? hdigits hpower,
    dropWhile_digits_append hdigits hpower]
  rw [if_neg fun h => hne h.1, exponent?_powerChars, Option.map_some, List.append_nil,
    List.length_nil, Int.natCast_zero, Int.sub_zero]

theorem unsigned?_append_point (hne : whole ≠ []) (hwhole : ∀ c ∈ whole, c.isDigit = true)
    (hfraction : ∀ c ∈ fraction, c.isDigit = true) (hrest : ∀ c ∈ rest.head?, c.isDigit = false) :
    unsigned? negative (whole ++ '.' :: (fraction ++ rest)) =
      (exponent? rest).map fun exponent =>
        scaled negative (natOfDigits (whole ++ fraction)) (exponent - fraction.length) := by
  have hpoint : ∀ c ∈ ('.' :: (fraction ++ rest)).head?, c.isDigit = false := by
    rintro c ⟨⟩
    rfl
  simp only [unsigned?, Json.takeWhile_append_of_head? hwhole hpoint,
    dropWhile_digits_append hwhole hpoint, Json.takeWhile_append_of_head? hfraction hrest,
    dropWhile_digits_append hfraction hrest]
  rw [if_neg fun h => hne h.1]

end Texts

/-- Texts of decimals, with the mantissa and the exponent that they are read as. -/
inductive Numeral : List Char → Nat → Int → Prop where
  /-- Digits with a point. -/
  | point {whole fraction : List Char} : whole ≠ [] → (∀ c ∈ whole, c.isDigit = true) →
    (∀ c ∈ fraction, c.isDigit = true) →
    Numeral (whole ++ '.' :: fraction) (natOfDigits (whole ++ fraction)) (0 - fraction.length)
  /-- Digits with a power of ten. -/
  | power {digits : List Char} (power : Int) : digits ≠ [] → (∀ c ∈ digits, c.isDigit = true) →
    Numeral (digits ++ powerChars power) (natOfDigits digits) power
  /-- Digits with a point and a power of ten. -/
  | pointPower {whole fraction : List Char} (power : Int) : whole ≠ [] →
    (∀ c ∈ whole, c.isDigit = true) → (∀ c ∈ fraction, c.isDigit = true) →
    Numeral (whole ++ '.' :: (fraction ++ powerChars power)) (natOfDigits (whole ++ fraction))
      (power - fraction.length)

namespace Numeral

variable {text : List Char} {mantissa : Nat} {exponent : Int}

theorem unsigned?_eq (h : Numeral text mantissa exponent) (negative : Bool) :
    unsigned? negative text = some (scaled negative mantissa exponent) := by
  cases h with
  | @point whole fraction hne hwhole hfraction =>
    have hnil : ∀ c ∈ ([] : List Char).head?, c.isDigit = false := by
      rintro c ⟨⟩
    have hread := unsigned?_append_point negative hne hwhole hfraction hnil
    rwa [List.append_nil] at hread
  | power _ hne hdigits => exact unsigned?_append_power negative hne hdigits exponent
  | pointPower power hne hwhole hfraction =>
    rw [unsigned?_append_point negative hne hwhole hfraction
      (isDigit_of_mem_head?_powerChars power), exponent?_powerChars, Option.map_some]

theorem exists_eq_cons (h : Numeral text mantissa exponent) :
    ∃ c rest, text = c :: rest ∧ c.isDigit = true := by
  have hhead : ∀ digits rest : List Char, digits ≠ [] → (∀ c ∈ digits, c.isDigit = true) →
      ∃ c more, digits ++ rest = c :: more ∧ c.isDigit = true := by
    intro digits rest hne hdigits
    cases digits with
    | nil => exact absurd rfl hne
    | cons c digits => exact ⟨c, digits ++ rest, rfl, hdigits c List.mem_cons_self⟩
  cases h with
  | point hne hwhole _ => exact hhead _ _ hne hwhole
  | power _ hne hdigits => exact hhead _ _ hne hdigits
  | pointPower _ hne hwhole _ => exact hhead _ _ hne hwhole

theorem isNumeric (h : Numeral text mantissa exponent) : ∀ c ∈ text, Json.isNumeric c = true := by
  have hdigit : ∀ digits : List Char, (∀ c ∈ digits, c.isDigit = true) →
      ∀ c ∈ digits, Json.isNumeric c = true := by
    intro digits hdigits c hc
    rw [Json.isNumeric, hdigits c hc, Bool.true_or]
  have hpower : ∀ power, ∀ c ∈ powerChars power, Json.isNumeric c = true := by
    intro power
    refine List.forall_mem_cons.2 ⟨rfl, List.forall_mem_cons.2 ⟨?_, ?_⟩⟩
    · split <;> rfl
    · exact hdigit _ fun _ => Json.isDigit_of_mem_repr
  cases h with
  | point _ hwhole hfraction =>
    exact List.forall_mem_append.2
      ⟨hdigit _ hwhole, List.forall_mem_cons.2 ⟨rfl, hdigit _ hfraction⟩⟩
  | power _ _ hdigits => exact List.forall_mem_append.2 ⟨hdigit _ hdigits, hpower exponent⟩
  | pointPower power _ hwhole hfraction =>
    exact List.forall_mem_append.2 ⟨hdigit _ hwhole, List.forall_mem_cons.2
      ⟨rfl, List.forall_mem_append.2 ⟨hdigit _ hfraction, hpower power⟩⟩⟩

theorem exists_not_isDigit (h : Numeral text mantissa exponent) :
    ∃ c ∈ text, c.isDigit = false := by
  cases h with
  | point | pointPower => exact ⟨'.', List.mem_append_right _ List.mem_cons_self, rfl⟩
  | power => exact ⟨'e', List.mem_append_right _ List.mem_cons_self, rfl⟩

end Numeral

end Schematic.Decimal
