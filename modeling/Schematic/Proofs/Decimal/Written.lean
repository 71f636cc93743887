import Mathlib.Data.List.DropRight
import Schematic.Decimal.Written
import Schematic.Proofs.Decimal.Shortest

/-!
# What is written of a number is read as that number

A magnitude is written with the digits of its shortest decimal, less the zeros at their end, and its
point or its power of ten makes up for them (`exists_numeral_plain`, `numeral_scientific`). So the
text is a decimal that is read as the magnitude (`exists_numeral_writtenUnits`), and every number
that is written is read back (`read?_of_written?_eq_some`).
-/

namespace Schematic.Decimal

/-! ### Zeros -/

theorem isDigit_of_mem_zeros {count : Nat} {c : Char} (h : c ∈ zeros count) :
    c.isDigit = true := by
  rw [List.eq_of_mem_replicate h]
  rfl

theorem natOfDigits_zeros_append (count : Nat) (digits : List Char) :
    natOfDigits (zeros count ++ digits) = natOfDigits digits := by
  rw [natOfDigits_eq_ofDigitChars, Nat.ofDigitChars_append, zeros,
    Nat.ofDigitChars_replicate_zero, Nat.mul_zero, ← natOfDigits_eq_ofDigitChars]

theorem natOfDigits_append_zeros (digits : List Char) (count : Nat) :
    natOfDigits (digits ++ zeros count) = natOfDigits digits * 10 ^ count := by
  rw [natOfDigits_eq_ofDigitChars, Nat.ofDigitChars_append, zeros,
    Nat.ofDigitChars_replicate_zero, Nat.mul_comm, ← natOfDigits_eq_ofDigitChars]

/-- The zeros at the end of a decimal's digits are taken off them, and count for its point. -/
theorem exists_significant (decimal : Digits) :
    ∃ (digits : List Char) (count : Nat),
      significant decimal = (digits, digits.length + (decimal.exponent + count)) ∧
        (Nat.repr decimal.number).toList = digits ++ zeros count := by
  generalize hall : (Nat.repr decimal.number).toList = all
  have hzeros : all.rtakeWhile (· = '0') = zeros (all.rtakeWhile (· = '0')).length :=
    List.eq_replicate_iff.2
      ⟨rfl, fun _ hc => of_decide_eq_true (@List.mem_rtakeWhile_imp _ (· = '0') _ _ hc)⟩
  have hsplit : all.rdropWhile (· = '0') ++ all.rtakeWhile (· = '0') = all :=
    List.rdropWhile_append_rtakeWhile
  refine ⟨all.rdropWhile (· = '0'), (all.rtakeWhile (· = '0')).length, ?_, ?_⟩
  · have hlength := congrArg List.length hsplit
    rw [List.length_append] at hlength
    simp only [significant, hall, ← hlength, List.rdropWhile, Prod.mk.injEq, true_and]
    omega
  · rw [← hzeros, hsplit]

/-! ### Texts -/

section Texts

variable {digits : List Char} (hne : digits ≠ []) (hdigits : ∀ c ∈ digits, c.isDigit = true)
  (exponent : Int)

include hne hdigits

/-- Digits written out are read with the exponent that they are written for. -/
theorem exists_numeral_plain : ∃ mantissa power,
    Numeral (plain digits (digits.length + exponent)) mantissa power ∧
      ∀ units, ReadsAs (natOfDigits digits) exponent units → ReadsAs mantissa power units := by
  rw [plain]
  split
  case isTrue hpoint =>
    generalize hcount : (-(digits.length + exponent)).toNat = count
    refine ⟨_, _, .point (List.cons_ne_nil '0' []) (List.forall_mem_singleton.2 rfl)
      (List.forall_mem_append.2 ⟨fun _ => isDigit_of_mem_zeros, hdigits⟩), fun units h => ?_⟩
    have hvalue : natOfDigits (['0'] ++ (zeros count ++ digits)) = natOfDigits digits :=
      natOfDigits_zeros_append (count + 1) digits
    have hpower : (0 - (zeros count ++ digits).length : Int) = exponent := by
      rw [List.length_append, zeros, List.length_replicate]
      omega
    rwa [hvalue, hpower]
  case isFalse hpoint =>
    obtain ⟨whole, hwhole⟩ : ∃ whole : Nat, digits.length + exponent = whole :=
      Int.eq_ofNat_of_zero_le (by omega)
    rw [hwhole, Int.toNat_natCast]
    dsimp only
    split
    case isTrue hlt =>
      have htake : digits.take whole ≠ [] := by
        rw [Ne, List.take_eq_nil_iff]
        rintro (hzero | hnil)
        · omega
        · exact hne hnil
      refine ⟨_, _, .point htake (fun c hc => hdigits c (List.mem_of_mem_take hc))
        (fun c hc => hdigits c (List.mem_of_mem_drop hc)), fun units h => ?_⟩
      have hpower : (0 - (digits.drop whole).length : Int) = exponent := by
        rw [List.length_drop]
        omega
      rwa [List.take_append_drop, hpower]
    case isFalse hge =>
      obtain ⟨count, rfl⟩ := Nat.exists_eq_add_of_le (Nat.le_of_not_lt hge)
      rw [Nat.add_sub_cancel_left]
      refine ⟨_, _, .point (List.append_ne_nil_of_left_ne_nil hne _)
        (List.forall_mem_append.2 ⟨hdigits, fun _ => isDigit_of_mem_zeros⟩)
        (List.forall_mem_singleton.2 rfl), fun units h => ?_⟩
      have hzeros : digits ++ zeros count ++ ['0'] = digits ++ zeros (count + 1) := by
        rw [List.append_assoc, zeros, zeros, List.replicate_succ']
      have hpower : (0 - (['0'].length : Nat) + (count + 1 : Nat) : Int) = exponent := by
        rw [List.length_singleton]
        omega
      rwa [hzeros, natOfDigits_append_zeros, readsAs_mul_ten_pow, hpower]

/-- Digits with a power of ten are read with the exponent that they are written for. -/
theorem numeral_scientific :
    Numeral (scientific digits (digits.length + exponent)) (natOfDigits digits) exponent := by
  obtain _ | ⟨digit, more⟩ := digits
  · exact absurd rfl hne
  have hpower : (((digit :: more).length : Nat) + exponent - 1 : Int) = exponent + more.length := by
    rw [List.length_cons]
    omega
  obtain _ | ⟨next, more⟩ := more
  · rw [List.length_nil, Int.natCast_zero, Int.add_zero] at hpower
    simp only [scientific, hpower]
    exact .power exponent hne hdigits
  · have hnumeral := Numeral.pointPower (exponent + (next :: more).length)
      (List.cons_ne_nil digit [])
      (List.forall_mem_singleton.2 (hdigits digit List.mem_cons_self))
      (fun c hc => hdigits c (List.mem_cons_of_mem digit hc))
    rw [Int.add_sub_cancel] at hnumeral
    simp only [scientific, hpower]
    exact hnumeral

end Texts

/-- A magnitude is written as a decimal that is read as that magnitude. -/
theorem exists_numeral_writtenUnits {units : Nat} (hunits : Double.Representable units) :
    ∃ mantissa exponent, Numeral (writtenUnits units) mantissa exponent ∧
      ∀ negative, scaled negative mantissa exponent = .finite negative units := by
  rw [writtenUnits]
  split
  case isTrue hzero =>
    have hdigit : ∀ c ∈ ['0'], c.isDigit = true := List.forall_mem_singleton.2 rfl
    subst hzero
    exact ⟨_, _, .point (List.cons_ne_nil '0' []) hdigit hdigit, fun _ => rfl⟩
  case isFalse hne =>
    have hpos : 0 < units := Nat.pos_of_ne_zero hne
    have hshortest := shortest_readsAs hunits hpos
    obtain ⟨digits, count, hsignificant, hrepr⟩ := exists_significant (shortest units)
    have hdigits : ∀ c ∈ digits, c.isDigit = true := fun c hc =>
      Json.isDigit_of_mem_repr (hrepr ▸ List.mem_append_left _ hc)
    have hnumber : (shortest units).number = natOfDigits digits * 10 ^ count := by
      rw [← natOfDigits_append_zeros, ← hrepr, natOfDigits_repr]
    rw [hnumber, readsAs_mul_ten_pow] at hshortest
    have hdigitsne : digits ≠ [] := by
      rintro rfl
      exact absurd (mantissa_pos_of_readsAs hshortest hunits hpos) (by decide)
    rw [hsignificant]
    dsimp only
    split
    · obtain ⟨mantissa, power, hnumeral, hreads⟩ := exists_numeral_plain hdigitsne hdigits
        ((shortest units).exponent + count)
      exact ⟨mantissa, power, hnumeral, scaled_eq_of_readsAs (hreads units hshortest) hunits hpos⟩
    · exact ⟨_, _, numeral_scientific hdigitsne hdigits _,
        scaled_eq_of_readsAs hshortest hunits hpos⟩

/-! ### Floating-point numbers -/

theorem toLower_of_isDigit {c : Char} (h : c.isDigit = true) : c.toLower = c := by
  have hupper : ¬(c.val ≥ 'A'.val ∧ c.val ≤ 'Z'.val) := by
    simp only [Char.isDigit, Bool.and_eq_true, decide_eq_true_eq] at h
    rintro ⟨hge, -⟩
    exact absurd (UInt32.le_trans hge h.2) (by decide)
  rw [Char.toLower, dif_neg hupper]

/-- A decimal is not taken for a word. -/
theorem read?_of_numeral {text : List Char} {mantissa : Nat} {exponent : Int}
    (h : Numeral text mantissa exponent) (negative : Bool) :
    read? (String.ofList (if negative then '-' :: text else text)) =
      some (scaled negative mantissa exponent).toFloat := by
  have hread := h.unsigned?_eq negative
  obtain ⟨c, rest, rfl, hc⟩ := h.exists_eq_cons
  have hsign : splitSign (if negative then '-' :: c :: rest else c :: rest) =
      (negative, c :: rest) := by
    cases negative with
    | true => rfl
    | false =>
      unfold splitSign
      split
      case h_1 hplus => cases hplus; cases hc
      case h_2 hminus => cases hminus; cases hc
      case h_3 => rfl
  rw [read?, String.toList_ofList, hsign]
  dsimp only
  have hword (d : Char) (word : List Char) (hd : d.isDigit = false) :
      String.ofList ((c :: rest).map Char.toLower) ≠ String.ofList (d :: word) := by
    intro heq
    have hlist := congrArg String.toList heq
    rw [String.toList_ofList, String.toList_ofList, List.map_cons, toLower_of_isDigit hc] at hlist
    rw [(List.cons.inj hlist).1, hd] at hc
    cases hc
  split
  case h_1 heq => exact absurd heq (hword 'i' ['n', 'f'] rfl)
  case h_2 heq => exact absurd heq (hword 'i' ['n', 'f', 'i', 'n', 'i', 't', 'y'] rfl)
  case h_3 heq => exact absurd heq (hword 'n' ['a', 'n'] rfl)
  case h_4 => rw [hread, Option.map_some]

/-- A number is written as a decimal that is read as that number, with a sign if it is negative. -/
theorem exists_numeral_of_written?_eq_some {x : Float} {text : List Char}
    (h : written? x = some text) :
    ∃ negative number mantissa exponent,
      text = (if negative = true then '-' :: number else number) ∧
        Numeral number mantissa exponent ∧ (scaled negative mantissa exponent).toFloat = x := by
  rw [written?] at h
  split at h
  case h_1 negative units hx =>
    obtain ⟨mantissa, exponent, hnumeral, hscaled⟩ :=
      exists_numeral_writtenUnits (Double.representable_of_ofFloat_eq hx)
    refine ⟨negative, writtenUnits units, mantissa, exponent, (Option.some.inj h).symm, hnumeral,
      ?_⟩
    rw [hscaled, Double.toFloat_of_ofFloat_eq hx]
  case h_2 => cases h

/-- Every written number is read back. -/
theorem read?_of_written?_eq_some {x : Float} {text : List Char} (h : written? x = some text) :
    read? (String.ofList text) = some x := by
  obtain ⟨negative, number, mantissa, exponent, rfl, hnumeral, hx⟩ :=
    exists_numeral_of_written?_eq_some h
  rw [read?_of_numeral hnumeral, hx]

/-- Every finite number is written. -/
theorem exists_written?_eq_some {x : Float} (h : x.isFinite = true) :
    ∃ text, written? x = some text := by
  rw [written?, Double.ofFloat_of_exponentOf_ne (Double.exponentOf_ne_of_isFinite h)]
  exact ⟨_, rfl⟩

/-- Written numbers are told from all that is not a real number, and from each other. -/
theorem legible_written? : Json.Legible written? where
  numeric {x text} h := by
    obtain ⟨negative, number, mantissa, exponent, rfl, hnumeral, -⟩ :=
      exists_numeral_of_written?_eq_some h
    cases negative with
    | true => exact List.forall_mem_cons.2 ⟨rfl, hnumeral.isNumeric⟩
    | false => exact hnumeral.isNumeric
  fractional {x text} h := by
    obtain ⟨negative, number, mantissa, exponent, rfl, hnumeral, -⟩ :=
      exists_numeral_of_written?_eq_some h
    cases negative with
    | true => exact ⟨'-', List.mem_cons_self, rfl⟩
    | false => exact hnumeral.exists_not_isDigit
  injective {x y text} hx hy :=
    Option.some.inj ((read?_of_written?_eq_some hx).symm.trans (read?_of_written?_eq_some hy))

end Schematic.Decimal
