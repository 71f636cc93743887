import Mathlib.Tactic.Positivity
import Schematic.Layout.Settings
import Schematic.Proofs.Scalar

/-!
# Settings that make sense

The fields of `Settings` may hold anything. What a layout promises of distances it promises for
settings without negative sizes and distances, such as the default ones (`Settings.proper_default`).
-/

namespace Schematic.Settings

/-- No size and no distance is negative, and nodes have a height. The cap of an inverter's growth
and the least size of the canvas may be anything. -/
structure Regular (settings : Settings Rat) : Prop where
  baseWidth : 0 ≤ settings.baseWidth
  baseHeight : 0 < settings.baseHeight
  gateWidthPerInput : 0 ≤ settings.gateWidthPerInput
  gateHeightPerInput : 0 ≤ settings.gateHeightPerInput
  notWidthPerLeaf : 0 ≤ settings.notWidthPerLeaf
  notHeightPerLeaf : 0 ≤ settings.notHeightPerLeaf
  widthPerLevel : 0 ≤ settings.widthPerLevel
  heightPerLevel : 0 ≤ settings.heightPerLevel
  columnGap : 0 ≤ settings.columnGap
  rowGap : 0 ≤ settings.rowGap
  rowGapPerInput : 0 ≤ settings.rowGapPerInput
  minSeparationRatio : 0 ≤ settings.minSeparationRatio

/-- No margin is negative either. -/
structure Proper (settings : Settings Rat) : Prop extends Regular settings where
  marginX : 0 ≤ settings.marginX
  marginY : 0 ≤ settings.marginY

theorem proper_default : (default : Settings Rat).Proper := by
  constructor
  · constructor <;> decide +kernel
  · decide +kernel
  · decide +kernel

variable {settings : Settings Rat}

theorem Regular.rowGapFor_nonneg (h : settings.Regular) (fanIn : Nat) :
    0 ≤ settings.rowGapFor fanIn := by
  have hrowGap := h.rowGap
  have hperInput := h.rowGapPerInput
  rw [rowGapFor, Scalar.whole_rat]
  positivity

/-- The distance that nodes of a column keep is not negative. -/
theorem Regular.minSeparation_nonneg (h : settings.Regular) (fanIn : Nat) :
    0 ≤ settings.minSeparation fanIn :=
  mul_nonneg (h.rowGapFor_nonneg fanIn) h.minSeparationRatio

/-- It is no more than the distance with which they are stacked, if the ratio is no more than
one. -/
theorem Regular.minSeparation_le (h : settings.Regular) (hratio : settings.minSeparationRatio ≤ 1)
    (fanIn : Nat) : settings.minSeparation fanIn ≤ settings.rowGapFor fanIn :=
  mul_le_of_le_one_right (h.rowGapFor_nonneg fanIn) hratio

end Schematic.Settings
