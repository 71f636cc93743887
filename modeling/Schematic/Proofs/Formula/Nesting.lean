import Schematic.Formula.Printer
import Schematic.Proofs.Parser.Grammar

/-!
# How deep the canonical text nests

The nesting of a formula is the largest number of `!`s and parentheses around a leaf of its
canonical text. No text of a formula gets by with less: whatever the tokens that denote it, they
take as many levels as its nesting (`nesting_le_of_derives`).
-/

namespace Schematic.Formula

open Grammar

mutual

/-- The largest number of `!`s and parentheses around a leaf of the canonical text. -/
def nesting : Formula → Nat
  | var _ => 0
  | not operand => (if operand.enclosedUnder .not then 1 else 0) + operand.nesting + 1
  | and operands => nestingOf .and operands
  | or operands => nestingOf .or operands

/-- The same for the operands of a gate, with the parentheses around each of them. -/
def nestingOf (above : Gate) : List Formula → Nat
  | [] => 0
  | operand :: operands =>
    max ((if operand.enclosedUnder above then 1 else 0) + operand.nesting)
      (nestingOf above operands)

end

/-- The nesting of a formula under a gate, its own parentheses included. -/
def nestingUnder (above : Gate) (f : Formula) : Nat :=
  (if f.enclosedUnder above then 1 else 0) + f.nesting

theorem nestingOf_le_iff {above : Gate} {operands : List Formula} {levels : Nat} :
    nestingOf above operands ≤ levels ↔ ∀ f ∈ operands, f.nestingUnder above ≤ levels := by
  induction operands with
  | nil => simp [nestingOf]
  | cons f operands ih =>
    rw [nestingOf, Nat.max_le, ih, List.forall_mem_cons]
    rfl

theorem nestingUnder_le_nestingOf {above : Gate} {operands : List Formula} {f : Formula}
    (h : f ∈ operands) : f.nestingUnder above ≤ nestingOf above operands :=
  nestingOf_le_iff.1 (Nat.le_refl _) f h

theorem nesting_le_nestingUnder (above : Gate) (f : Formula) : f.nesting ≤ f.nestingUnder above :=
  Nat.le_add_left ..

theorem nestingUnder_le (above : Gate) (f : Formula) : f.nestingUnder above ≤ f.nesting + 1 := by
  unfold nestingUnder
  split <;> omega

/-- What stands free under a `.` stands free under a `+`. -/
theorem nestingUnder_or_le (f : Formula) : f.nestingUnder .or ≤ f.nestingUnder .and := by
  cases f <;> simp [nestingUnder, enclosedUnder]

/-! ### Every text of a formula -/

/-- The levels a formula takes as a phrase, where a looser formula needs parentheses. -/
def nestingAs : Phrase → Formula → Nat
  | .disjunction => nesting
  | .conjunction => nestingUnder .or
  | .negation | .primary => nestingUnder .and

/-- Tokens that denote a formula take all the levels of its canonical text. -/
theorem nestingAs_le_of_derives {phrase : Phrase} {levels : Nat} {kinds : List Token.Kind}
    {f : Formula} (h : Derives phrase levels kinds f) : f.nestingAs phrase ≤ levels := by
  induction h with
  | identifier name => exact Nat.zero_le _
  | @parens levels kinds f _ ih => exact Nat.le_trans (f.nestingUnder_le .and) (Nat.succ_le_succ ih)
  | primary _ ih => exact ih
  | @not levels kinds f _ ih =>
    have hnot : (Formula.not f).nestingAs .negation = f.nestingUnder .and + 1 := by
      cases f <;> simp [nestingAs, nestingUnder, nesting, enclosedUnder]
    rw [hnot]
    exact Nat.succ_le_succ ih
  | @factor levels kinds f _ ih => exact Nat.le_trans f.nestingUnder_or_le ih
  | and parts hlen _ ih =>
    have hand : nestingUnder .or (.and (parts.map (·.2))) = nestingOf .and (parts.map (·.2)) := by
      simp [nestingUnder, nesting, enclosedUnder]
    rw [nestingAs, hand, nestingOf_le_iff]
    intro f hf
    obtain ⟨part, hpart, rfl⟩ := List.mem_map.1 hf
    exact ih part hpart
  | @term levels kinds f _ ih => exact Nat.le_trans (f.nesting_le_nestingUnder .or) ih
  | or parts hlen _ ih =>
    rw [nestingAs, nesting, nestingOf_le_iff]
    intro f hf
    obtain ⟨part, hpart, rfl⟩ := List.mem_map.1 hf
    exact ih part hpart

theorem nesting_le_of_derives {levels : Nat} {kinds : List Token.Kind} {f : Formula}
    (h : Derives .disjunction levels kinds f) : f.nesting ≤ levels :=
  nestingAs_le_of_derives h

end Schematic.Formula
