import Schematic.Text.Blank

/-!
# Gates

The four shapes a node is drawn as, with the keys that renderers and users name them by.
-/

namespace Schematic

/-- The shape a node is drawn as. -/
inductive Gate where
  /-- An input. -/
  | var
  /-- An inverter. -/
  | not
  /-- A conjunction. -/
  | and
  /-- A disjunction. -/
  | or
  deriving DecidableEq, Repr, Inhabited

namespace Gate

/-- Every gate, in rising order. -/
def all : List Gate := [var, not, and, or]

/-- The key of a gate. -/
def key : Gate → String
  | var => "VAR"
  | not => "NOT"
  | and => "AND"
  | or => "OR"

/-- The place of a gate among all gates. -/
def rank (gate : Gate) : Nat := all.idxOf gate

/-- The gate that a key names, in letters of either case and with blanks around it. -/
def ofKey? (key : String) : Option Gate :=
  let letters := (Text.trim key.toList).map Char.toUpper
  all.find? fun gate => gate.key.toList = letters

/-- Where a renderer looks for the picture of a gate. -/
def assetPath (gate : Gate) : String := "images/" ++ gate.key ++ ".png"

end Gate

end Schematic
