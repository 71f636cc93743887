import Schematic.Proofs.Decimal.Numeral

/-!
# Seventeen digits always read back

The decimals of seventeen digits next to a number are no further apart than `10 ^ -16` of it. Since
`2 ^ 53 < 10 ^ 16` the interval of the number is longer than that, so one of the two decimals next
to it lies in the interval (`holds_or_holds`). So the search for the shortest decimal ends, and the
decimal that it finds reads back (`shortest_readsAs`).
-/

namespace Schematic.Decimal

/-! ### The power of ten that a quotient reaches -/

theorem leadingExponent_le {num den : Nat} (hnum : 0 < num) (hden : 0 < den) :
    den * 10 ^ (leadingExponent num den).toNat ≤ num * 10 ^ (-leadingExponent num den).toNat := by
  rw [leadingExponent]
  split
  case isTrue hle =>
    have hten := ten_pow_length_repr_le (Nat.div_pos hle hden)
    rw [Nat.le_div_iff_mul_le hden, Nat.mul_comm] at hten
    have hlength : 0 < (Nat.repr (num / den)).length := length_repr_pos _
    rwa [Int.pred_toNat, Int.toNat_natCast, Int.toNat_of_nonpos (by omega), Nat.pow_zero,
      Nat.mul_one]
  case isFalse hgt =>
    have hlt := lt_ten_pow_length_repr ((den + num - 1) / num - 1)
    generalize (Nat.repr ((den + num - 1) / num - 1)).length = length at hlt ⊢
    have hdiv : (den + num - 1) / num < 10 ^ length + 1 := by omega
    rw [Nat.div_lt_iff_lt_mul hnum, Nat.succ_mul] at hdiv
    rw [Int.neg_neg, Int.toNat_natCast, Int.toNat_of_nonpos (by omega), Nat.pow_zero, Nat.mul_one,
      Nat.mul_comm]
    omega

/-! ### Intervals -/

namespace Interval

variable {interval : Interval} {magnitude step nearest : Nat}

theorem holds_of_nearest?_eq_some (h : interval.nearest? step = some nearest) :
    interval.holds (nearest * step) = true := by
  rw [nearest?] at h
  split at h
  case h_1 => cases h
  case h_2 hlow _ => rwa [← Option.some.inj h]
  case h_3 _ hhigh => rwa [← Option.some.inj h]
  case h_4 hlow hhigh =>
    rw [← Option.some.inj h]
    split_ifs <;> assumption

theorem nearest?_isSome (h : interval.holds (interval.value / step * step) = true ∨
    interval.holds ((interval.value / step + 1) * step) = true) :
    (interval.nearest? step).isSome = true := by
  rw [nearest?]
  obtain h | h := h
  · rw [h]
    split <;> first | rfl | contradiction
  · rw [h]
    split <;> first | rfl | contradiction

end Interval

/-! ### Seventeen digits -/

theorem lt_mul_spacing (units : Nat) : units < 2 ^ 53 * spacing units := by
  have hlt : units < 2 ^ (units.log2 + 1) := Nat.lt_log2_self
  refine hlt.trans_le ?_
  rw [spacing_eq, ← Nat.pow_add]
  exact Nat.pow_le_pow_right (by decide) (by omega)

theorem two_pow_log2_eq {units : Nat} (h : 1 < spacing units) :
    2 ^ units.log2 = 2 ^ 52 * spacing units := by
  have hlog : 52 ≤ units.log2 := by
    by_contra! hlt
    rw [spacing_eq, Nat.sub_eq_zero_of_le hlt.le] at h
    exact absurd h (by decide)
  rw [spacing_eq, ← Nat.pow_add, Nat.add_sub_cancel' hlog]

section Steps

variable {units factor step magnitude : Nat}

/-- The interval reaches a whole space beyond its value. -/
theorem Interval.holds_of_value_lt (hlow : 4 * units * factor < magnitude)
    (hhigh : magnitude < 4 * units * factor + 2 * spacing units * factor) :
    ((ofUnits units).scale factor).holds magnitude = true := by
  rw [← Nat.add_mul] at hhigh
  exact holds_of_lt ((Nat.mul_le_mul_right factor (Nat.sub_le ..)).trans_lt hlow) hhigh

/-- It reaches as far below it, if that is not a power of two. -/
theorem Interval.holds_of_le_value (hunits : spacing units ≤ units)
    (hpow : ¬(units = 2 ^ units.log2 ∧ 1 < spacing units)) (hfactor : 0 < factor)
    (hlow : 4 * units * factor < magnitude + 2 * spacing units * factor)
    (hhigh : magnitude ≤ 4 * units * factor) :
    ((ofUnits units).scale factor).holds magnitude = true := by
  have hlower : (ofUnits units).low = 4 * units - 2 * spacing units :=
    congrArg (4 * units - ·) (if_neg hpow)
  apply holds_of_lt
  · have hle := Nat.mul_le_mul_right factor hunits
    simp only [scale, hlower, Nat.sub_mul, Nat.mul_assoc] at *
    omega
  · exact hhigh.trans_lt (Nat.mul_lt_mul_of_pos_right
      (Nat.lt_add_of_pos_right (Nat.mul_pos two_pos (spacing_pos units))) hfactor)

/-- Of steps that are so small against a magnitude, one of the two next to it lies in its
interval. -/
theorem holds_or_holds (hunits : Double.Representable units) (hpos : 0 < units)
    (hfactor : 0 < factor) (hstep : 0 < step) (hle : step * 10 ^ 16 ≤ 4 * units * factor) :
    ((Interval.ofUnits units).scale factor).holds
        (4 * units * factor / step * step) = true ∨
      ((Interval.ofUnits units).scale factor).holds
        ((4 * units * factor / step + 1) * step) = true := by
  have hbelow := Nat.div_mul_le_self (4 * units * factor) step
  have habove := Nat.lt_div_mul_add (a := 4 * units * factor) hstep
  have hspace : 0 < spacing units * factor := Nat.mul_pos (spacing_pos units) hfactor
  rw [Nat.succ_mul (4 * units * factor / step)]
  generalize 4 * units * factor / step * step = below at *
  by_cases hpow : units = 2 ^ units.log2 ∧ 1 < spacing units
  -- The lower half of the interval may be too short, but a whole step fits into the upper half.
  · right
    have hlength : units * factor = 2 ^ 52 * (spacing units * factor) := by
      rw [← Nat.mul_assoc, ← two_pow_log2_eq hpow.2, ← hpow.1]
    refine Interval.holds_of_value_lt habove ?_
    simp only [Nat.mul_assoc] at *
    omega
  · have hlength : units * factor < 2 ^ 53 * (spacing units * factor) := by
      rw [← Nat.mul_assoc]
      exact Nat.mul_lt_mul_of_pos_right (lt_mul_spacing units) hfactor
    -- Half a step fits into either half, and one of the two is no further away.
    obtain hnear | hfar := Nat.lt_or_ge (2 * (4 * units * factor)) (2 * below + step)
    · left
      refine Interval.holds_of_le_value (Nat.le_of_dvd hpos hunits.dvd) hpow hfactor ?_ hbelow
      simp only [Nat.mul_assoc] at *
      omega
    · right
      refine Interval.holds_of_value_lt habove ?_
      simp only [Nat.mul_assoc] at *
      omega

end Steps

variable {units : Nat}

theorem readsAs_of_ofLength?_eq_some {length : Nat} {decimal : Digits}
    (h : ofLength? units length = some decimal) :
    ReadsAs decimal.number decimal.exponent units := by
  rw [ofLength?, Option.map_eq_some_iff] at h
  obtain ⟨number, hnearest, rfl⟩ := h
  have hholds := Interval.holds_of_nearest?_eq_some hnearest
  have hten (ten : Nat) : number * (4 * unitsPerOne * ten) = 4 * (number * ten * unitsPerOne) := by
    ring
  rw [ReadsAs, ← hten]
  exact hholds

theorem ofLength?_isSome (hunits : Double.Representable units) (hpos : 0 < units) :
    (ofLength? units 17).isSome = true := by
  rw [ofLength?, Option.isSome_map]
  generalize hexponent : leadingExponent units unitsPerOne + 1 - (17 : Nat) = exponent
  refine Interval.nearest?_isSome (holds_or_holds hunits hpos (Nat.pow_pos (by decide)) ?_ ?_)
  · exact Nat.mul_pos (Nat.mul_pos (by decide) unitsPerOne_pos) (Nat.pow_pos (by decide))
  · have hle : unitsPerOne * 10 ^ (exponent.toNat + 16) ≤ units * 10 ^ (-exponent).toNat :=
      mul_ten_pow_le (leadingExponent_le hpos unitsPerOne_pos) (by omega)
    calc 4 * unitsPerOne * 10 ^ exponent.toNat * 10 ^ 16
        = 4 * (unitsPerOne * 10 ^ (exponent.toNat + 16)) := by ring
      _ ≤ 4 * (units * 10 ^ (-exponent).toNat) := Nat.mul_le_mul_left 4 hle
      _ = 4 * units * 10 ^ (-exponent).toNat := (Nat.mul_assoc ..).symm

/-- The shortest decimal of a number reads back as that number. -/
theorem shortest_readsAs (hunits : Double.Representable units) (hpos : 0 < units) :
    ReadsAs (shortest units).number (shortest units).exponent units := by
  have hsome : ((List.range' 1 17).findSome? (ofLength? units)).isSome = true :=
    List.findSome?_isSome_iff.2 ⟨17, by decide, ofLength?_isSome hunits hpos⟩
  obtain ⟨decimal, hdecimal⟩ := Option.isSome_iff_exists.1 hsome
  obtain ⟨length, -, hlength⟩ := List.exists_of_findSome?_eq_some hdecimal
  rw [shortest, hdecimal]
  exact readsAs_of_ofLength?_eq_some hlength

end Schematic.Decimal
