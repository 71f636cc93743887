import Schematic.Formula

/-!
# The shape of formulas

Induction on formulas with a hypothesis for every operand of a chain, and the formulas that a text
can spell: their variables are capital letters, and every chain has two operands or more.
-/

namespace Schematic.Formula

/-- Induction on a formula: a property that passes from operands to the formula over them. -/
@[elab_as_elim, induction_eliminator]
theorem inductionOn {motive : Formula → Prop} (var : ∀ name, motive (.var name))
    (not : ∀ operand, motive operand → motive (.not operand))
    (and : ∀ operands, (∀ f ∈ operands, motive f) → motive (.and operands))
    (or : ∀ operands, (∀ f ∈ operands, motive f) → motive (.or operands)) (f : Formula) :
    motive f := by
  refine @Formula.rec motive (fun fs => ∀ g ∈ fs, motive g) var not and or ?_ ?_ f
  · intro g hg
    cases hg
  · intro g fs hg hfs
    exact List.forall_mem_cons.2 ⟨hg, hfs⟩

/-- Induction on a formula where its gate does not matter. -/
@[elab_as_elim]
theorem inductionOnOperands {motive : Formula → Prop}
    (step : ∀ f, (∀ g ∈ f.operands, motive g) → motive f) (f : Formula) : motive f := by
  induction f with
  | var name => exact step _ (by simp [operands])
  | not operand ih => exact step _ (by simpa [operands] using ih)
  | and operands ih => exact step _ ih
  | or operands ih => exact step _ ih

/-- Every variable is a capital letter, and every chain has two operands or more. -/
inductive WellFormed : Formula → Prop where
  /-- A variable. -/
  | var {name : Char} : name.isUpper = true → WellFormed (.var name)
  /-- A negation. -/
  | not {operand : Formula} : WellFormed operand → WellFormed (.not operand)
  /-- A conjunction. -/
  | and {operands : List Formula} :
    2 ≤ operands.length → (∀ f ∈ operands, WellFormed f) → WellFormed (.and operands)
  /-- A disjunction. -/
  | or {operands : List Formula} :
    2 ≤ operands.length → (∀ f ∈ operands, WellFormed f) → WellFormed (.or operands)

end Schematic.Formula
