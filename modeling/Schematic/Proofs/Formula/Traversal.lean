import Schematic.Proofs.Formula.Height

/-!
# What the walk counts and names

Whatever is pending, the walk visits the parts of the first formula before it goes on
(`walk_cons_eq`). So the counts of a formula add up from those of its operands, and its names are
the variables that occur in it, each once and in rising order (`walk_follows_recursion`).
-/

namespace Schematic.Formula

/-- The walk visits all parts of a formula, and then what is pending behind it. -/
theorem walk_cons_eq (f : Formula) (pending : List Formula) :
    walk (f :: pending) = f.parts ++ walk pending := by
  rw [walk_eq_flatMap, List.flatMap_cons, preOrder_eq_parts, walk_eq_flatMap]

/-- A formula has one part more than its operands together. -/
theorem nodeCount_eq_sum (f : Formula) :
    f.nodeCount = 1 + (f.operands.map nodeCount).sum := by
  rw [nodeCount_eq, List.length_flatMap, Nat.add_comm]
  rfl

/-! ### Variables -/

/-- The variable occurs in a formula. -/
inductive Occurs (name : Char) : Formula → Prop where
  /-- The formula is the variable. -/
  | var : Occurs name (.var name)
  /-- It occurs in an operand. -/
  | operand {f operand : Formula} : operand ∈ f.operands → Occurs name operand → Occurs name f

/-- The leaves are the variables that occur. -/
theorem mem_leaves_iff_occurs {f : Formula} {name : Char} : name ∈ f.leaves ↔ f.Occurs name := by
  induction f using inductionOnOperands with
  | step f ih =>
    rw [leaves_eq, List.mem_append, List.mem_flatMap]
    constructor
    · rintro (hname | ⟨operand, hoperand, hleaf⟩)
      · cases f <;> cases hname
        · exact .var
        · contradiction
      · exact .operand hoperand ((ih operand hoperand).1 hleaf)
    · rintro (_ | ⟨hoperand, hoccurs⟩)
      · exact .inl List.mem_cons_self
      · exact .inr ⟨_, hoperand, (ih _ hoperand).2 hoccurs⟩

/-- A name that is put into a rising list leaves it rising. -/
theorem pairwise_insertName {name : Char} {names : List Char} (h : names.Pairwise (· < ·)) :
    (insertName name names).Pairwise (· < ·) := by
  induction names with
  | nil => exact List.pairwise_singleton ..
  | cons first names ih =>
    obtain ⟨hfirst, hnames⟩ := List.pairwise_cons.1 h
    rw [insertName]
    split
    · next hlt =>
      refine List.pairwise_cons.2 ⟨List.forall_mem_cons.2 ⟨hlt, fun other hother => ?_⟩, h⟩
      exact Char.lt_trans hlt (hfirst other hother)
    · next hnot =>
      split
      · exact h
      · next hne =>
        refine List.pairwise_cons.2 ⟨fun other hother => ?_, ih hnames⟩
        rcases mem_insertName.1 hother with rfl | hmem
        · exact Char.not_le.1 fun hle => hne (Char.le_antisymm hle (Char.not_lt.1 hnot))
        · exact hfirst other hmem

/-- The names of a formula rise. -/
theorem pairwise_variableNames (f : Formula) : f.variableNames.Pairwise (· < ·) := by
  rw [variableNames]
  induction f.leaves with
  | nil => exact .nil
  | cons leaf leaves ih => exact pairwise_insertName ih

/-! ### All questions to the walk -/

/-- **The walk follows the recursion.** Whatever is pending, it visits the parts of the first
formula as the recursion finds them and then goes on with the rest. So the parts of a formula are
the formula and the parts of its operands in their order; it has one part more than its operands
together, and their leaves, or is a leaf; and its names are the variables that occur in it, in
rising order. -/
theorem walk_follows_recursion (f : Formula) :
    (∀ pending, walk (f :: pending) = f.parts ++ walk pending) ∧
      f.preOrder = f :: f.operands.flatMap preOrder ∧
      f.nodeCount = 1 + (f.operands.map nodeCount).sum ∧
      f.leafCount = (if f.gate = .var then 1 else (f.operands.map leafCount).sum) ∧
      (∀ name, name ∈ f.variableNames ↔ f.Occurs name) ∧
      f.variableNames.Pairwise (· < ·) := by
  refine ⟨f.walk_cons_eq, f.preOrder_eq, f.nodeCount_eq_sum, f.leafCount_eq, fun name => ?_,
    f.pairwise_variableNames⟩
  rw [mem_variableNames, mem_leaves_iff_occurs]

end Schematic.Formula
