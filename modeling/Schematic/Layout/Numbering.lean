import Schematic.Diagram.Node
import Schematic.Formula.Walk

/-!
# Numbering the parts of a formula

Every part of a formula becomes a node. The parts are taken from a stack, and each gets the next
number when it is taken; a part that is an operand then hands its number to its gate, and at last
pushes its own operands, the first one on top. So the nodes are numbered in pre-order, and a gate
knows the numbers of its operands only after all of them have been taken.
-/

namespace Schematic.Layout

/-- A part that waits for its number, and the node of the gate whose operand it is. -/
abbrev Waiting := Formula × Option NodeId

/-- Pushes parts onto a stack, one after the other. The top of the stack is its first entry. -/
def push (stack entries : List Waiting) : List Waiting :=
  entries.foldl (fun stack entry => entry :: stack) stack

/-- The first of the entries comes to lie on top if the last one is pushed first. -/
theorem push_reverse (stack entries : List Waiting) :
    push stack entries.reverse = entries ++ stack := by
  rw [push, List.foldl_flip_cons_eq_append, List.map_id', List.reverse_reverse]

/-- What has been numbered so far. -/
structure Numbering where
  /-- The parts that have a number, which is their place. -/
  order : Array Formula
  /-- The numbers that each of them has been handed by its operands. -/
  inputs : Array (Array NodeId)
  /-- Every part has a list for them. -/
  size_inputs : inputs.size = order.size

namespace Numbering

/-- Nothing has a number yet. -/
def empty : Numbering := ⟨#[], #[], rfl⟩

/-- Gives a part the next number, and hands that to its gate. -/
def visit (numbering : Numbering) (part : Formula) (gate? : Option NodeId) : Numbering where
  order := numbering.order.push part
  inputs :=
    let handed := gate?.elim numbering.inputs fun gate =>
      numbering.inputs.modify gate (·.push numbering.order.size)
    handed.push #[]
  size_inputs := by cases gate? <;> simp [numbering.size_inputs]

/-- Numbers all parts that wait on the stack, and those under them. -/
def run (numbering : Numbering) : List Waiting → Numbering
  | [] => numbering
  | (part, gate?) :: stack =>
    let operands := part.operands.map (·, some numbering.order.size)
    (numbering.visit part gate?).run (push stack operands.reverse)
termination_by stack => sizeOf (stack.map Prod.fst)
decreasing_by
  rw [push_reverse, List.map_append, List.map_map]
  simpa [Function.comp_def] using Formula.sizeOf_append_lt part (stack.map Prod.fst)

end Numbering

/-- The operation of a part that has been handed the numbers. -/
def operationOf (inputs : Array NodeId) : Formula → Operation
  | .var name => .var name
  | .not _ => .not (inputs.getD 0 0)
  | .and _ => .and inputs.toList
  | .or _ => .or inputs.toList

/-- The operations of a formula's nodes. -/
def operations (formula : Formula) : List Operation :=
  let numbering := Numbering.empty.run [(formula, none)]
  (numbering.order.zipWith (fun part inputs => operationOf inputs part) numbering.inputs).toList

end Schematic.Layout
