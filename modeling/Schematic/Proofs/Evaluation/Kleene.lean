import Mathlib.Data.List.Basic
import Schematic.Diagram.Node
import Schematic.Proofs.Formula.Structure

/-!
# Strong Kleene values

What a formula is worth where some of its variables are unknown, and what it is worth where all of
them are known. A gate is decided by one operand of the dominant signal, low for a conjunction and
high for a disjunction; without one, it is unknown if an operand is.

With every variable known the value is the truth value of the formula (`Formula.value_ofBool`).
-/

namespace Schematic

/-! ### Gates -/

namespace Signal

/-- The signal of a gate with operands of any number, decided by one that is `dominant`. -/
def combine (dominant : Signal) (signals : List Signal) : Signal :=
  if dominant ∈ signals then dominant
  else if unknown ∈ signals then unknown
  else dominant.invert

theorem ofBool_injective : Function.Injective ofBool := by
  intro a b h
  cases a <;> cases b <;> first | rfl | cases h

@[simp] theorem ofBool_ne_unknown (value : Bool) : ofBool value ≠ unknown := by
  cases value <;> exact nofun

@[simp] theorem invert_ofBool (value : Bool) : (ofBool value).invert = ofBool !value := by
  cases value <;> rfl

/-- Between known operands the dominant one decides, and no gate is unknown. -/
theorem combine_ofBool (dominant : Bool) (values : List Bool) :
    combine (ofBool dominant) (values.map ofBool) =
      ofBool (if dominant ∈ values then dominant else !dominant) := by
  have hunknown : unknown ∉ values.map ofBool := by simp
  rw [combine, if_neg hunknown]
  simp only [List.mem_map_of_injective ofBool_injective]
  split
  · rfl
  · exact invert_ofBool dominant

theorem combine_low_ofBool (values : List Bool) :
    combine low (values.map ofBool) = ofBool (values.all id) := by
  rw [show low = ofBool false from rfl, combine_ofBool]
  by_cases h : false ∈ values
  · rw [if_pos h, List.all_eq_false.2 ⟨false, h, by decide⟩]
  · have hall : values.all id = true := by grind
    rw [if_neg h, hall, Bool.not_false]

theorem combine_high_ofBool (values : List Bool) :
    combine high (values.map ofBool) = ofBool (values.any id) := by
  rw [show high = ofBool true from rfl, combine_ofBool]
  by_cases h : true ∈ values
  · rw [if_pos h, List.any_eq_true.2 ⟨true, h, rfl⟩]
  · have hany : values.any id = false := by grind
    rw [if_neg h, hany, Bool.not_true]

end Signal

/-! ### Operations -/

/-- The signal that an operation gives, from the values of the variables and the signals of the
nodes. -/
def Operation.signal (read : Char → Signal) (signals : NodeId → Signal) : Operation → Signal
  | var name => read name
  | not input => (signals input).invert
  | and inputs => .combine .low (inputs.map signals)
  | or inputs => .combine .high (inputs.map signals)

/-! ### Formulas -/

namespace Formula

mutual

/-- The value of a formula where variables have the values that are read. -/
def value (read : Char → Signal) : Formula → Signal
  | var name => read name
  | not operand => (operand.value read).invert
  | and operands => .combine .low (values read operands)
  | or operands => .combine .high (values read operands)

/-- The values of formulas. -/
def values (read : Char → Signal) : List Formula → List Signal
  | [] => []
  | f :: fs => f.value read :: values read fs

end

theorem values_eq_map (read : Char → Signal) (fs : List Formula) :
    values read fs = fs.map (value read) := by
  induction fs with
  | nil => rfl
  | cons f fs ih => rw [values, ih, List.map_cons]

mutual

/-- The formula holds where the variables that are `on` are true and no other ones. -/
def truth (on : Char → Bool) : Formula → Bool
  | var name => on name
  | not operand => !operand.truth on
  | and operands => (truths on operands).all id
  | or operands => (truths on operands).any id

/-- The truth values of formulas. -/
def truths (on : Char → Bool) : List Formula → List Bool
  | [] => []
  | f :: fs => f.truth on :: truths on fs

end

theorem truths_eq_map (on : Char → Bool) (fs : List Formula) :
    truths on fs = fs.map (truth on) := by
  induction fs with
  | nil => rfl
  | cons f fs ih => rw [truths, ih, List.map_cons]

theorem values_ofBool {on : Char → Bool} {fs : List Formula}
    (h : ∀ f ∈ fs, f.value (fun name => .ofBool (on name)) = .ofBool (f.truth on)) :
    values (fun name => .ofBool (on name)) fs = (truths on fs).map .ofBool := by
  rw [values_eq_map, truths_eq_map, List.map_map]
  exact List.map_congr_left h

/-- Where every variable is known, so is the formula. -/
theorem value_ofBool (on : Char → Bool) (f : Formula) :
    f.value (fun name => .ofBool (on name)) = .ofBool (f.truth on) := by
  induction f with
  | var name => rfl
  | not operand ih =>
    rw [value, truth, ih, Signal.invert_ofBool]
  | and operands ih => rw [value, truth, values_ofBool ih, Signal.combine_low_ofBool]
  | or operands ih => rw [value, truth, values_ofBool ih, Signal.combine_high_ofBool]

end Formula

end Schematic
