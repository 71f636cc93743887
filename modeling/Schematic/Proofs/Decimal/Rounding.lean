import Mathlib.Tactic.Ring
import Schematic.Decimal.Shortest
import Schematic.Proofs.Decimal.Double

/-!
# What lies in the interval of a number is rounded to it

The interval of a magnitude ends half-way to the numbers next to it, and the ends belong to it only
if its last bit is even, so that a tie goes to it. A quotient in the interval has numbers as close
to it as the magnitude has; or the magnitude is a power of two and the quotient lies below it, where
the numbers are twice as close and the interval is half as long (`Double.spacing_div_of_lt`). Either
way the quotient is rounded to the magnitude (`Double.ofQuotient_eq_of_holds`).
-/

namespace Schematic.Decimal

/-! ### Rounding -/

/-- A quotient within a half of a whole number, and not at an end if that is odd, is rounded to
it. -/
theorem roundDiv_eq {num den nearest : Nat} (hlow : 2 * nearest * den ≤ 2 * num + den)
    (hhigh : 2 * num ≤ 2 * nearest * den + den)
    (hodd : nearest % 2 = 1 → 2 * nearest * den < 2 * num + den ∧ 2 * num < 2 * nearest * den + den)
    (hden : 0 < den) : roundDiv num den = nearest := by
  have hdiv : den * (num / den) + num % den = num := Nat.div_add_mod num den
  have hmod : num % den < den := Nat.mod_lt num hden
  rw [roundDiv]
  generalize num / den = quotient, num % den = rest at *
  have hle : nearest ≤ quotient + 1 := by
    by_contra! hlt
    linarith [Nat.mul_le_mul_left den (Nat.succ_le_of_lt hlt)]
  have hge : quotient ≤ nearest := by
    by_contra! hlt
    linarith [Nat.mul_le_mul_left den (Nat.succ_le_of_lt hlt)]
  rw [Nat.mul_assoc, Nat.mul_comm nearest] at hlow hhigh hodd
  obtain rfl | rfl : nearest = quotient ∨ nearest = quotient + 1 := by omega
  · rw [if_neg (by omega)]
  · rw [Nat.mul_succ] at hlow hhigh hodd
    rw [if_pos (by omega)]

/-- A quotient within half a step of a multiple of the step, and not at an end if it is an odd
one, is rounded to it. -/
theorem roundDiv_mul_eq {num den step units : Nat} (hden : 0 < den) (hstep : 0 < step)
    (hdvd : step ∣ units) (hlow : 2 * units * den ≤ 2 * num + step * den)
    (hhigh : 2 * num ≤ (2 * units + step) * den)
    (hodd : units / step % 2 = 1 →
      2 * units * den < 2 * num + step * den ∧ 2 * num < (2 * units + step) * den) :
    roundDiv num (den * step) * step = units := by
  obtain ⟨nearest, rfl⟩ := hdvd
  rw [Nat.mul_div_cancel_left nearest hstep] at hodd
  have hround : roundDiv num (den * step) = nearest := by
    refine roundDiv_eq ?_ ?_ (fun h => ⟨?_, ?_⟩) (Nat.mul_pos hden hstep)
    · linarith
    · linarith
    · linarith [hodd h]
    · linarith [hodd h]
  rw [hround, Nat.mul_comm]

/-! ### The space to the next number -/

theorem spacing_eq_of_log2 {units exponent : Nat} (hle : 2 ^ exponent ≤ units)
    (hlt : units < 2 ^ (exponent + 1)) : spacing units = 2 ^ (exponent - 52) := by
  have hne : units ≠ 0 := ((Nat.two_pow_pos exponent).trans_le hle).ne'
  rw [spacing_eq, (Nat.log2_eq_iff hne).2 ⟨hle, hlt⟩]

theorem spacing_eq_one {units : Nat} (h : units < 2 ^ 53) : spacing units = 1 := by
  by_cases hzero : units = 0
  · rw [hzero]
    rfl
  · have hlog : units.log2 < 53 := (Nat.log2_lt hzero).2 h
    have hshift : units.log2 - 52 = 0 := by omega
    rw [spacing_eq, hshift, Nat.pow_zero]

theorem add_le_of_dvd_of_lt {step units next : Nat} (hunits : step ∣ units) (hnext : step ∣ next)
    (h : units < next) : units + step ≤ next :=
  ((Nat.modEq_zero_iff_dvd.2 hunits).trans (Nat.modEq_zero_iff_dvd.2 hnext).symm).add_le_of_lt h

/-! ### Intervals -/

namespace Interval

variable {interval : Interval} {magnitude : Nat}

theorem holds_iff : interval.holds magnitude = true ↔
    if interval.closed = true then interval.low ≤ magnitude ∧ magnitude ≤ interval.high
    else interval.low < magnitude ∧ magnitude < interval.high := by
  rw [holds]
  split <;> exact decide_eq_true_iff

theorem le_of_holds (h : interval.holds magnitude = true) :
    interval.low ≤ magnitude ∧ magnitude ≤ interval.high := by
  rw [holds_iff] at h
  split at h
  · exact h
  · exact h.imp Nat.le_of_lt Nat.le_of_lt

theorem lt_of_holds (h : interval.holds magnitude = true) (hopen : interval.closed = false) :
    interval.low < magnitude ∧ magnitude < interval.high := by
  rwa [holds_iff, hopen, if_neg Bool.false_ne_true] at h

theorem holds_of_lt (hlow : interval.low < magnitude) (hhigh : magnitude < interval.high) :
    interval.holds magnitude = true := by
  rw [holds_iff]
  split
  · exact ⟨hlow.le, hhigh.le⟩
  · exact ⟨hlow, hhigh⟩

theorem holds_scale_mul {factor more : Nat} (hmore : 0 < more) :
    (interval.scale (factor * more)).holds (magnitude * more) = true ↔
      (interval.scale factor).holds magnitude = true := by
  simp only [holds_iff, scale, ← Nat.mul_assoc, Nat.mul_le_mul_right_iff hmore,
    Nat.mul_lt_mul_right hmore]

section Bounds

variable {units num den : Nat}
  (h : ((ofUnits units).scale den).holds (4 * num) = true)

include h

/-- What lies in the interval of a magnitude is at most half a space away from it. -/
theorem bounds_of_holds :
    2 * units * den ≤ 2 * num + spacing units * den ∧
      2 * num ≤ (2 * units + spacing units) * den := by
  obtain ⟨hlow, hhigh⟩ := le_of_holds h
  simp only [ofUnits, scale, Nat.sub_mul, Nat.add_mul] at hlow hhigh ⊢
  split at hlow <;> simp only [Nat.mul_assoc] at * <;> omega

/-- An odd magnitude is further away from the ends of its interval. -/
theorem lt_bounds_of_holds (hodd : units / spacing units % 2 = 1) :
    2 * units * den < 2 * num + spacing units * den ∧
      2 * num < (2 * units + spacing units) * den := by
  have hopen : ((ofUnits units).scale den).closed = false := by
    simp [scale, ofUnits, hodd]
  obtain ⟨hlow, hhigh⟩ := lt_of_holds h hopen
  simp only [ofUnits, scale, Nat.sub_mul, Nat.add_mul] at hlow hhigh ⊢
  split at hlow <;> simp only [Nat.mul_assoc] at * <;> omega

/-- Below a power of two the interval is half as long. -/
theorem low_bound_of_holds (hpow : units = 2 ^ units.log2) (hspacing : 1 < spacing units) :
    4 * units * den ≤ 4 * num + spacing units * den := by
  have hlow := (le_of_holds h).1
  simp only [ofUnits, scale, Nat.sub_mul] at hlow
  rw [if_pos ⟨hpow, hspacing⟩] at hlow
  omega

end Bounds

end Interval

/-! ### Reading a quotient -/

namespace Double

section Quotients

variable {units num den : Nat} (hunits : Representable units) (hden : 0 < den)
  (h : ((Interval.ofUnits units).scale den).holds (4 * num) = true)

include hunits hden h

/-- What lies in the interval of a number, and not below its first bit, has numbers as close to
it as that number. -/
theorem spacing_div_of_le (hle : 2 ^ units.log2 * den ≤ num) :
    spacing (num / den) = spacing units := by
  have hdvd : spacing units ∣ 2 ^ (units.log2 + 1) := Nat.pow_dvd_pow 2 (by omega)
  have hroom : (units + spacing units) * den ≤ 2 ^ (units.log2 + 1) * den :=
    Nat.mul_le_mul_right den (add_le_of_dvd_of_lt hunits.dvd hdvd Nat.lt_log2_self)
  have hstep : 0 < spacing units * den := Nat.mul_pos (spacing_pos units) hden
  have hlt : num < 2 ^ (units.log2 + 1) * den := by
    linarith [(Interval.bounds_of_holds h).2]
  exact spacing_eq_of_log2 ((Nat.le_div_iff_mul_le hden).2 hle) ((Nat.div_lt_iff_lt_mul hden).2 hlt)

/-- What lies in the interval of a number, but below its first bit, lies below a power of two. -/
theorem eq_two_pow_of_lt (hpos : 0 < units) (hlt : num < 2 ^ units.log2 * den) :
    units = 2 ^ units.log2 := by
  by_contra hne
  -- Else there is a whole space between the first bit and the number, and the interval ends in it.
  have hdvd : spacing units ∣ 2 ^ units.log2 := Nat.pow_dvd_pow 2 (Nat.sub_le ..)
  have hroom : (2 ^ units.log2 + spacing units) * den ≤ units * den :=
    Nat.mul_le_mul_right den
      (add_le_of_dvd_of_lt hdvd hunits.dvd ((Nat.log2_self_le hpos.ne').lt_of_ne' hne))
  have hstep : 0 < spacing units * den := Nat.mul_pos (spacing_pos units) hden
  linarith [(Interval.bounds_of_holds h).1]

/-- Below a power of two the numbers are as close to each other as above it, or twice as close. -/
theorem spacing_div_of_lt (hpos : 0 < units) (hlt : num < 2 ^ units.log2 * den) :
    spacing (num / den) = spacing units ∨ spacing units = 2 * spacing (num / den) := by
  have hdiv : num / den < 2 ^ units.log2 := (Nat.div_lt_iff_lt_mul hden).2 hlt
  obtain hlog | ⟨exponent, hlog⟩ : units.log2 ≤ 52 ∨ ∃ exponent, units.log2 = exponent + 53 := by
    obtain hle | hlt := Nat.lt_or_ge 52 units.log2
    · exact .inr ⟨units.log2 - 53, by omega⟩
    · exact .inl hlt
  · left
    have hle : 2 ^ units.log2 ≤ 2 ^ 53 := Nat.pow_le_pow_right (by decide) (by omega)
    rw [spacing_eq_one (hdiv.trans_le hle), spacing_eq, Nat.sub_eq_zero_of_le hlog, Nat.pow_zero]
  · right
    have hhalf : spacing units = 2 * 2 ^ exponent := by
      have hshift : exponent + 53 - 52 = exponent + 1 := by omega
      rw [spacing_eq, hlog, hshift, Nat.pow_succ, Nat.mul_comm]
    have hpow : units = 2 * 2 ^ (exponent + 52) := by
      rw [eq_two_pow_of_lt hunits hden h hpos hlt, hlog, Nat.pow_succ, Nat.mul_comm]
    have hle : spacing units * den ≤ units * den :=
      Nat.mul_le_mul_right den (Nat.le_of_dvd hpos hunits.dvd)
    have hlow := Interval.low_bound_of_holds h (eq_two_pow_of_lt hunits hden h hpos hlt)
      (by have := Nat.two_pow_pos exponent; omega)
    have hge : 2 ^ (exponent + 52) * den ≤ num := by
      rw [hpow] at hlow hle
      linarith
    rw [hlog] at hdiv
    rw [hhalf, spacing_eq_of_log2 ((Nat.le_div_iff_mul_le hden).2 hge) hdiv, Nat.add_sub_cancel]

/-- What lies in the interval of a number is rounded to that number. -/
theorem roundDiv_spacing_eq (hpos : 0 < units) :
    roundDiv num (den * spacing (num / den)) * spacing (num / den) = units := by
  have hnear (hspace : spacing (num / den) = spacing units) :
      roundDiv num (den * spacing (num / den)) * spacing (num / den) = units := by
    obtain ⟨hlow, hhigh⟩ := Interval.bounds_of_holds h
    rw [hspace]
    exact roundDiv_mul_eq hden (spacing_pos units) hunits.dvd hlow hhigh
      (Interval.lt_bounds_of_holds h)
  obtain hlt | hle := Nat.lt_or_ge num (2 ^ units.log2 * den)
  · obtain hspace | hspace := spacing_div_of_lt hunits hden h hpos hlt
    · exact hnear hspace
    · have hstep := spacing_pos (num / den)
      have hpow := eq_two_pow_of_lt hunits hden h hpos hlt
      have hlow := Interval.low_bound_of_holds h hpow (by omega)
      obtain ⟨spaces, hspaces⟩ := hunits.dvd
      rw [← hpow] at hlt
      -- Counted in the smaller spaces the number is even, so that both ends may belong to it.
      have hdouble : units = spacing (num / den) * (2 * spaces) := by
        rw [hspaces, hspace]
        ring
      have heven : units / spacing (num / den) % 2 = 0 := by
        rw [hdouble, Nat.mul_div_cancel_left _ hstep, Nat.mul_mod_right]
      have hmul := Nat.mul_pos hstep hden
      rw [hspace] at hlow
      exact roundDiv_mul_eq hden (spacing_pos _) ⟨_, hdouble⟩ (by linarith) (by linarith)
        fun hodd => by omega
  · exact hnear (spacing_div_of_le hunits hden h hle)

end Quotients

/-- A quotient in the interval of a number is read as that number. -/
theorem ofQuotient_eq_of_holds {units num den : Nat} (hunits : Representable units)
    (hpos : 0 < units) (hden : 0 < den)
    (h : ((Interval.ofUnits units).scale den).holds (4 * (num * unitsPerOne)) = true)
    (negative : Bool) : ofQuotient negative num den = .finite negative units := by
  simp only [ofQuotient, roundDiv_spacing_eq hunits hden h hpos]

end Double

end Schematic.Decimal
