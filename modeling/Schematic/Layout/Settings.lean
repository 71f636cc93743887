import Schematic.Scalar

/-!
# Settings of a layout

The sizes and distances that a layout keeps to. The `with` functions change some of them and
bring what they are given into range; a field that is set directly is taken as it is.
-/

namespace Schematic

/-- The sizes and distances of a layout. -/
structure Settings (α : Type) where
  /-- The width of a node before it grows. -/
  baseWidth : α
  /-- The height of a node before it grows. -/
  baseHeight : α
  /-- How much wider a gate gets with every variable under it beyond two. -/
  gateWidthPerInput : α
  /-- How much higher a gate gets with every variable under it beyond two. -/
  gateHeightPerInput : α
  /-- How much wider an inverter gets with every variable under it beyond one. -/
  notWidthPerLeaf : α
  /-- How much higher an inverter gets with every variable under it beyond one. -/
  notHeightPerLeaf : α
  /-- For how many variables an inverter grows at most. -/
  notGrowthCap : Nat
  /-- How much wider every node gets with its level. -/
  widthPerLevel : α
  /-- How much higher every node gets with its level. -/
  heightPerLevel : α
  /-- The distance between two columns. -/
  columnGap : α
  /-- The distance between two nodes of a column. -/
  rowGap : α
  /-- How much that distance grows with every variable beyond two under a node of the column. -/
  rowGapPerInput : α
  /-- The part of the distance that two nodes of a column keep in any case. -/
  minSeparationRatio : α
  /-- The margin on the left and on the right. -/
  marginX : α
  /-- The margin at the top and at the bottom. -/
  marginY : α
  /-- The least width of the canvas. -/
  minWidth : α
  /-- The least height of the canvas. -/
  minHeight : α
  deriving Repr

namespace Settings

open Scalar

variable {α : Type} [Scalar α]

/-- The settings used unless others are given. -/
def default : Settings α where
  baseWidth := whole 50
  baseHeight := whole 40
  gateWidthPerInput := whole 6
  gateHeightPerInput := whole 10
  notWidthPerLeaf := whole 4
  notHeightPerLeaf := whole 3
  notGrowthCap := 3
  widthPerLevel := whole 4
  heightPerLevel := whole 2
  columnGap := whole 70
  rowGap := whole 30
  rowGapPerInput := whole 8
  minSeparationRatio := half (whole 1)
  marginX := whole 40
  marginY := whole 30
  minWidth := whole 360
  minHeight := whole 220

instance : Inhabited (Settings α) := ⟨default⟩

/-! ### Changes -/

/-- Sets the size of a node before it grows. -/
def withBaseSize (settings : Settings α) (width height : α) : Settings α :=
  { settings with baseWidth := width, baseHeight := height }

/-- Sets the distance between columns; less than nothing, or no number, is nothing. So is `-0.0`,
which is why `zero` comes first: of two equal scalars, `larger` takes the first. -/
def withColumnGap (settings : Settings α) (gap : α) : Settings α :=
  { settings with columnGap := larger zero gap }

/-- Sets the distance between the nodes of a column, with the same rule. -/
def withRowGap (settings : Settings α) (gap : α) : Settings α :=
  { settings with rowGap := larger zero gap }

/-- Sets the part of the distance that is always kept, brought into the range from zero to one.
What is no number stays. -/
def withMinSeparationRatio (settings : Settings α) (ratio : α) : Settings α :=
  { settings with
    minSeparationRatio :=
      if ratio < zero then zero else if whole 1 < ratio then whole 1 else ratio }

/-- Sets the margins. -/
def withMargin (settings : Settings α) (x y : α) : Settings α :=
  { settings with marginX := x, marginY := y }

/-! ### Distances -/

/-- The distance between the nodes of a column whose widest node has so many variables. -/
def rowGapFor (settings : Settings α) (fanIn : Nat) : α :=
  settings.rowGap + whole (fanIn - 2) * settings.rowGapPerInput

/-- The distance that the nodes of such a column keep in any case. -/
def minSeparation (settings : Settings α) (fanIn : Nat) : α :=
  settings.rowGapFor fanIn * settings.minSeparationRatio

end Settings

end Schematic
