import Schematic.Gate

/-!
# Formulas

A boolean formula: variables, negations, and conjunctions and disjunctions of any number of
operands. A chain of one operator is one node, so `A.B.C` has three operands and not two.
-/

namespace Schematic

/-- A boolean formula. -/
inductive Formula where
  /-- A variable. -/
  | var (name : Char)
  /-- A negation. -/
  | not (operand : Formula)
  /-- A conjunction; with no operands it is true. -/
  | and (operands : List Formula)
  /-- A disjunction; with no operands it is false. -/
  | or (operands : List Formula)
  deriving Repr

namespace Formula

instance : Inhabited Formula := ⟨or []⟩

/-- The variable that a letter names, whichever its case. -/
def ofLetter (letter : Char) : Formula := var letter.toUpper

/-- The gate a formula is drawn as. -/
def gate : Formula → Gate
  | var _ => .var
  | not _ => .not
  | and _ => .and
  | or _ => .or

/-- What stands directly under a formula's operator. -/
def operands : Formula → List Formula
  | var _ => []
  | not operand => [operand]
  | and operands => operands
  | or operands => operands

/-! ### Equality -/

mutual

/-- Two formulas are equal or not. -/
def decEq : (f g : Formula) → Decidable (f = g)
  | var a, var b =>
    if h : a = b then isTrue (by rw [h]) else isFalse (by simpa using h)
  | not f, not g =>
    match decEq f g with
    | isTrue h => isTrue (by rw [h])
    | isFalse h => isFalse (by simpa using h)
  | and fs, and gs =>
    match decEqAll fs gs with
    | isTrue h => isTrue (by rw [h])
    | isFalse h => isFalse (by simpa using h)
  | or fs, or gs =>
    match decEqAll fs gs with
    | isTrue h => isTrue (by rw [h])
    | isFalse h => isFalse (by simpa using h)
  | var _, not _ | var _, and _ | var _, or _ => isFalse nofun
  | not _, var _ | not _, and _ | not _, or _ => isFalse nofun
  | and _, var _ | and _, not _ | and _, or _ => isFalse nofun
  | or _, var _ | or _, not _ | or _, and _ => isFalse nofun

/-- Two lists of formulas are equal or not. -/
def decEqAll : (fs gs : List Formula) → Decidable (fs = gs)
  | [], [] => isTrue rfl
  | [], _ :: _ => isFalse nofun
  | _ :: _, [] => isFalse nofun
  | f :: fs, g :: gs =>
    match decEq f g with
    | isFalse h => isFalse fun e => h (List.cons.inj e).1
    | isTrue h =>
      match decEqAll fs gs with
      | isTrue hs => isTrue (by rw [h, hs])
      | isFalse hs => isFalse fun e => hs (List.cons.inj e).2

end

instance : DecidableEq Formula := decEq

end Formula

end Schematic
