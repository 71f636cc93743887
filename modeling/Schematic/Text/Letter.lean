/-!
# Letters

The letters of a formula are those from A to Z; either case of a letter names the same variable.
-/

namespace Schematic.Text

theorem isLower_iff_val {c : Char} : c.isLower = true ↔ 'a'.val ≤ c.val ∧ c.val ≤ 'z'.val := by
  show (decide ('a'.val ≤ c.val) && decide (c.val ≤ 'z'.val)) = true ↔ _
  rw [Bool.and_eq_true, decide_eq_true_eq, decide_eq_true_eq]

theorem isLower_iff {c : Char} : c.isLower = true ↔ 97 ≤ c.val.toNat ∧ c.val.toNat ≤ 122 :=
  isLower_iff_val

theorem isUpper_iff {c : Char} : c.isUpper = true ↔ 65 ≤ c.val.toNat ∧ c.val.toNat ≤ 90 := by
  show decide ('A'.val ≤ c.val ∧ c.val ≤ 'Z'.val) = true ↔ _
  rw [decide_eq_true_eq]
  rfl

/-- The upper case of a small letter stands 32 places before it. -/
theorem toNat_val_toUpper {c : Char} (h : c.isLower = true) :
    c.toUpper.val.toNat = c.val.toNat - 32 := by
  have hval : c.toUpper.val = c.val + ('A'.val - 'a'.val) := by
    delta Char.toUpper
    rw [dif_pos (isLower_iff_val.1 h)]
  rw [isLower_iff] at h
  rw [hval, UInt32.toNat_add]
  have hd : ('A'.val - 'a'.val).toNat = 4294967264 := rfl
  omega

/-- What is no small letter is its own upper case. -/
theorem toUpper_of_isLower_eq_false {c : Char} (h : c.isLower = false) : c.toUpper = c := by
  delta Char.toUpper
  rw [dif_neg (mt isLower_iff_val.2 (by simp [h]))]

theorem isAlpha_of_isUpper {c : Char} (h : c.isUpper = true) : c.isAlpha = true := by
  show (c.isUpper || c.isLower) = true
  rw [h, Bool.true_or]

/-- The upper case of a letter is a capital letter. -/
theorem isUpper_toUpper {c : Char} (h : c.isAlpha = true) : c.toUpper.isUpper = true := by
  cases hlower : c.isLower with
  | false =>
    have halpha : (c.isUpper || c.isLower) = true := h
    rwa [toUpper_of_isLower_eq_false hlower, ← Bool.or_false c.isUpper, ← hlower]
  | true =>
    have hplace := toNat_val_toUpper hlower
    rw [isLower_iff] at hlower
    rw [isUpper_iff]
    omega

/-- A capital letter is its own upper case. -/
theorem toUpper_of_isUpper {c : Char} (h : c.isUpper = true) : c.toUpper = c := by
  apply toUpper_of_isLower_eq_false
  rw [isUpper_iff] at h
  rw [Bool.eq_false_iff, ne_eq, isLower_iff]
  omega

/-- A letter in upper case has no other upper case. -/
theorem toUpper_toUpper (c : Char) : c.toUpper.toUpper = c.toUpper := by
  cases hlower : c.isLower with
  | false =>
    have hself := toUpper_of_isLower_eq_false hlower
    rw [hself, hself]
  | true =>
    have halpha : (c.isUpper || c.isLower) = true := by rw [hlower, Bool.or_true]
    exact toUpper_of_isUpper (isUpper_toUpper halpha)

/-- Upper case makes letters of letters only. -/
theorem isAlpha_toUpper (c : Char) : c.toUpper.isAlpha = c.isAlpha := by
  cases hlower : c.isLower with
  | false => rw [toUpper_of_isLower_eq_false hlower]
  | true =>
    have halpha : (c.isUpper || c.isLower) = true := by rw [hlower, Bool.or_true]
    exact (isAlpha_of_isUpper (isUpper_toUpper halpha)).trans halpha.symm

/-- What is no letter has only itself for an upper case. -/
theorem toUpper_of_isAlpha_eq_false {c : Char} (h : c.isAlpha = false) : c.toUpper = c := by
  have halpha : (c.isUpper || c.isLower) = false := h
  exact toUpper_of_isLower_eq_false (Bool.or_eq_false_iff.1 halpha).2

end Schematic.Text
