import Schematic.Formula

/-!
# Walking through a formula

A formula's parts in pre-order: itself, then the parts of its operands, left to right. The walk
keeps a list of what is still to be visited, so its depth does not grow with the formula's.
The counts and the names of a formula are read off the walk.
-/

namespace Schematic.Formula

/-! ### Pre-order -/

theorem sizeOf_append_lt (f : Formula) (pending : List Formula) :
    sizeOf (f.operands ++ pending) < sizeOf (f :: pending) := by
  have happend : ∀ xs ys : List Formula, sizeOf (xs ++ ys) + 1 = sizeOf xs + sizeOf ys := by
    intro xs ys
    induction xs with
    | nil => simp; omega
    | cons x xs ih => simp only [List.cons_append, List.cons.sizeOf_spec]; omega
  have h := happend f.operands pending
  cases f <;> simp [operands] at h ⊢ <;> omega

/-- Every part of the formulas that are still to be visited, in the order of the visit. -/
def walk : List Formula → List Formula
  | [] => []
  | f :: pending => f :: walk (f.operands ++ pending)
termination_by pending => sizeOf pending
decreasing_by exact sizeOf_append_lt f pending

/-- Every part of a formula: itself, then the parts of its operands. -/
def preOrder (f : Formula) : List Formula := walk [f]

/-! ### Counts -/

/-- How many parts a formula has. -/
def nodeCount (f : Formula) : Nat := f.preOrder.length

/-- The variable that a formula is, if it is one. -/
def name? : Formula → Option Char
  | var name => some name
  | _ => none

/-- The variables at the leaves, from left to right. -/
def leaves (f : Formula) : List Char := f.preOrder.filterMap name?

/-- How many leaves are variables. -/
def leafCount (f : Formula) : Nat := f.leaves.length

/-! ### Names -/

/-- Puts a name into a list that rises, unless it is there. -/
def insertName (name : Char) : List Char → List Char
  | [] => [name]
  | other :: names =>
    if name < other then name :: other :: names
    else if name = other then other :: names
    else other :: insertName name names

theorem mem_insertName {c name : Char} {names : List Char} :
    c ∈ insertName name names ↔ c = name ∨ c ∈ names := by
  induction names with
  | nil => simp [insertName]
  | cons other names ih => grind [insertName]

/-- The distinct variables of a formula, in rising order. -/
def variableNames (f : Formula) : List Char := f.leaves.foldr insertName []

end Schematic.Formula
