/-!
# Levels

Things grouped by level, the lowest level first, each group in the order the things came in.
Only the levels that occur have a group.
-/

namespace Schematic.Levels

variable {β : Type}

/-- Puts a thing before the others of its level. -/
def insert (level : Nat) (thing : β) : List (Nat × List β) → List (Nat × List β)
  | [] => [(level, [thing])]
  | (other, things) :: groups =>
    if level < other then (level, [thing]) :: (other, things) :: groups
    else if level = other then (other, thing :: things) :: groups
    else (other, things) :: insert level thing groups

/-- The groups of things whose levels are given. -/
def group (things : List (Nat × β)) : List (Nat × List β) :=
  things.foldr (fun thing groups => insert thing.1 thing.2 groups) []

/-- The highest level of a list, zero if it is empty. -/
def highest (levels : List Nat) : Nat := levels.foldl max 0

end Schematic.Levels
