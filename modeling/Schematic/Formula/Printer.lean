import Schematic.Formula

/-!
# The canonical text of a formula

Signs only, with no more parentheses than it takes to read the same tree back: a conjunction
under a disjunction stands free, every other chain under an operator is enclosed.
-/

namespace Schematic.Formula

/-- A formula that stands under a gate is enclosed. -/
def enclosedUnder (above : Gate) : Formula → Bool
  | var _ | not _ => false
  | and _ => above != .or
  | or _ => true

/-- A text in parentheses, if it is to be enclosed. -/
def enclose (enclosed : Bool) (text : List Char) : List Char :=
  if enclosed then '(' :: (text ++ [')']) else text

/-- What stands between two operands. -/
def separator : Gate → List Char
  | .or => [' ', '+', ' ']
  | _ => ['.']

mutual

/-- The characters of a formula's text. -/
def chars : Formula → List Char
  | var name => [name]
  | not operand => '!' :: enclose (operand.enclosedUnder .not) operand.chars
  | and operands => charsOf .and operands
  | or operands => charsOf .or operands

/-- The characters of the operands of a gate, with separators between them. -/
def charsOf (above : Gate) : List Formula → List Char
  | [] => []
  | [operand] => enclose (operand.enclosedUnder above) operand.chars
  | operand :: next :: more =>
    enclose (operand.enclosedUnder above) operand.chars ++ separator above ++
      charsOf above (next :: more)

end

/-- The canonical text of a formula. -/
def text (f : Formula) : String := String.ofList f.chars

end Schematic.Formula
