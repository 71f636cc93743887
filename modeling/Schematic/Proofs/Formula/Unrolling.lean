import Schematic.Formula.Printer
import Schematic.Proofs.Formula.Height

/-!
# How deep recursions over a formula nest

To print a formula, to copy it, to compare it with another one and to release its parts, one works
from the formula down to its operands. Such a recursion is given by what it makes of a formula and
of the results for its operands. Unrolled to some depth, it makes calls that nest no deeper and
answers for whatever lies below without a look at it (`unroll`). Where the depth is above the height
of the formula, that answer is never asked for (`unroll_eq`), so every recursion nests within the
height (`nestsWithin_of_height_lt`).
-/

namespace Schematic.Formula

variable {β : Type} {step : Formula → List β → β} {value : Formula → β}

/-! ### Recursions -/

/-- The value of a formula is worked out from those of its operands. -/
def Recursive (step : Formula → List β → β) (value : Formula → β) : Prop :=
  ∀ f, value f = step f (f.operands.map value)

/-- A recursion whose calls nest so deep at most. What would be called below that has the value
`beyond` instead. -/
def unroll (step : Formula → List β → β) (beyond : Formula → β) : (depth : Nat) → Formula → β
  | 0, f => beyond f
  | depth + 1, f => step f (f.operands.map (unroll step beyond depth))

/-- The calls for a formula nest no deeper than it is high, its own call included. -/
theorem unroll_eq (h : Recursive step value) (beyond : Formula → β) {depth : Nat} {f : Formula}
    (hdepth : f.height < depth) : unroll step beyond depth f = value f := by
  induction depth generalizing f with
  | zero => exact absurd hdepth (Nat.not_lt_zero _)
  | succ depth ih =>
    have hoperands : f.operands.map (unroll step beyond depth) = f.operands.map value := by
      refine List.map_congr_left fun operand hoperand => ih ?_
      have hlt := height_lt_of_mem_operands hoperand
      omega
    rw [unroll, hoperands, ← h f]

/-! ### Printing -/

/-- The text of a formula from the texts of its operands. -/
def printed (f : Formula) (texts : List (List Char)) : List Char :=
  let operands := (separator f.gate).intercalate <|
    List.zipWith (fun operand text => enclose (operand.enclosedUnder f.gate) text) f.operands texts
  match f with
  | var name => [name]
  | not _ => '!' :: operands
  | and _ | or _ => operands

theorem charsOf_eq_intercalate (above : Gate) (operands : List Formula) :
    charsOf above operands = (separator above).intercalate
      (operands.map fun operand => enclose (operand.enclosedUnder above) operand.chars) := by
  induction operands with
  | nil => rfl
  | cons first operands ih =>
    cases operands with
    | nil => simp [charsOf]
    | cons next operands => simp [charsOf, ih, List.intercalate]

theorem recursive_printed : Recursive printed chars := by
  intro f
  cases f with
  | var name => rfl
  | not operand => simp [printed, chars, operands, gate]
  | and operands | or operands =>
    simp [printed, chars, gate, Formula.operands, charsOf_eq_intercalate, List.zipWith_map_right]

/-! ### Copying -/

/-- A formula like another one over copies of its operands. -/
def rebuilt (f : Formula) (copies : List Formula) : Formula :=
  match f with
  | var name => .var name
  | not operand => .not (copies.headD operand)
  | and _ => .and copies
  | or _ => .or copies

theorem recursive_rebuilt : Recursive rebuilt id := by
  intro f
  cases f <;> simp [rebuilt, operands]

/-! ### Comparing -/

/-- A formula is compared with another one by comparing their operands. -/
def compared (f : Formula) (tests : List (Formula → Bool)) (g : Formula) : Bool :=
  f.gate = g.gate && f.name? = g.name? && f.operands.length = g.operands.length &&
    (List.zipWith (fun test operand => test operand) tests g.operands).all id

theorem eq_iff_of_operands {f g : Formula} :
    f = g ↔ f.gate = g.gate ∧ f.name? = g.name? ∧ f.operands = g.operands := by
  cases f <;> cases g <;> simp [gate, name?, operands]

theorem eq_iff_all_zipWith {fs gs : List Formula} :
    fs = gs ↔ fs.length = gs.length ∧
      (List.zipWith (fun f g => decide (f = g)) fs gs).all id = true := by
  induction fs generalizing gs with
  | nil => cases gs <;> simp
  | cons f fs ih =>
    cases gs with
    | nil => simp
    | cons g gs =>
      rw [List.cons.injEq, ih]
      simp only [List.length_cons, Nat.add_right_cancel_iff, List.zipWith_cons_cons, List.all_cons,
        id, Bool.and_eq_true, decide_eq_true_eq]
      exact and_left_comm

theorem recursive_compared : Recursive compared fun f g => decide (f = g) := by
  intro f
  funext g
  rw [Bool.eq_iff_iff, decide_eq_true_eq, eq_iff_of_operands, eq_iff_all_zipWith, compared,
    List.zipWith_map_left]
  simp only [Bool.and_eq_true, decide_eq_true_eq, and_assoc]

/-! ### Releasing -/

/-- A formula is released with all parts of its operands. -/
def released (f : Formula) (parts : List (List Formula)) : List Formula := f :: parts.flatten

theorem recursive_released : Recursive released preOrder := by
  intro f
  rw [preOrder_eq, released, List.flatMap]

/-! ### Depth -/

/-- The recursions over the formula make calls that nest so deep at most. -/
structure NestsWithin (f : Formula) (depth : Nat) : Prop where
  /-- Every recursion does. -/
  unroll {β : Type} {step : Formula → List β → β} {value : Formula → β} :
    Recursive step value → ∀ beyond, Formula.unroll step beyond depth f = value f
  /-- Printing does. -/
  print (beyond : Formula → List Char) : Formula.unroll printed beyond depth f = f.chars
  /-- Copying does. -/
  copy (beyond : Formula → Formula) : Formula.unroll rebuilt beyond depth f = f
  /-- Comparing with any formula does. -/
  compare (beyond : Formula → Formula → Bool) (g : Formula) :
    Formula.unroll compared beyond depth f g = decide (f = g)
  /-- Releasing all parts does. -/
  release (beyond : Formula → List Formula) : Formula.unroll released beyond depth f = f.preOrder

/-- No recursion over a formula nests deeper than the formula is high. -/
theorem nestsWithin_of_height_lt {f : Formula} {depth : Nat} (h : f.height < depth) :
    f.NestsWithin depth where
  unroll hvalue beyond := unroll_eq hvalue beyond h
  print beyond := unroll_eq recursive_printed beyond h
  copy beyond := unroll_eq recursive_rebuilt beyond h
  compare beyond g := congrFun (unroll_eq recursive_compared beyond h) g
  release beyond := unroll_eq recursive_released beyond h

end Schematic.Formula
