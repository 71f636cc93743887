import Schematic.Gate
import Schematic.Scalar
import Schematic.Signal

/-!
# Nodes and wires

What a diagram is made of: nodes, each with an operation, a level, a box on the canvas and a
signal, and wires that run from a node to an input pin of another.
-/

namespace Schematic

/-- The place of a node among the nodes of its diagram. -/
abbrev NodeId := Nat

/-- How a message or a listing names a node. -/
def NodeId.text (id : NodeId) : String := s!"n{id}"

/-! ### Operations -/

/-- What a node computes, and from which nodes. -/
inductive Operation where
  /-- The value of a switch. -/
  | var (name : Char)
  /-- The complement of a node. -/
  | not (input : NodeId)
  /-- The conjunction of nodes. -/
  | and (inputs : List NodeId)
  /-- The disjunction of nodes. -/
  | or (inputs : List NodeId)
  deriving DecidableEq, Repr

namespace Operation

/-- The gate a node is drawn as. -/
def gate : Operation → Gate
  | var _ => .var
  | not _ => .not
  | and _ => .and
  | or _ => .or

/-- The nodes an operation reads, in the order of its operands. -/
def inputs : Operation → List NodeId
  | var _ => []
  | not input => [input]
  | and inputs => inputs
  | or inputs => inputs

/-- What is written on a node: its variable, or the key of its gate. -/
def label : Operation → String
  | var name => String.singleton name
  | operation => operation.gate.key

end Operation

/-! ### Boxes -/

/-- A point on the canvas; `y` grows downwards. -/
structure Point (α : Type) where
  /-- How far it is from the left. -/
  x : α
  /-- How far it is from the top. -/
  y : α
  deriving Repr

/-- The rectangle a node takes on the canvas. -/
structure Box (α : Type) where
  /-- The left edge. -/
  x : α
  /-- The top edge. -/
  y : α
  /-- How wide it is. -/
  width : α
  /-- How high it is. -/
  height : α
  deriving Repr

namespace Box

variable {α : Type} [Scalar α]

/-- The right edge. -/
def right (box : Box α) : α := box.x + box.width

/-- The bottom edge. -/
def bottom (box : Box α) : α := box.y + box.height

/-- The middle between top and bottom. -/
def centreY (box : Box α) : α := box.y + Scalar.half box.height

end Box

/-! ### Nodes -/

/-- A node of a diagram. -/
structure Node (α : Type) where
  /-- Its name, which is its place unless somebody changed it. -/
  id : NodeId
  /-- What it computes. -/
  operation : Operation
  /-- What is written on it. -/
  label : String
  /-- The longest way down to a leaf. -/
  level : Nat
  /-- How many variables stand under it. -/
  fanIn : Nat
  /-- Where it is drawn. -/
  box : Box α
  /-- What it puts out, once that has been worked out. -/
  signal : Option Signal
  deriving Repr

/-- A wire from a node to an input pin of a gate. -/
structure Wire where
  /-- The node it comes from. -/
  source : NodeId
  /-- The gate it leads to. -/
  target : NodeId
  /-- The operand of the gate that it brings. -/
  slot : Nat
  /-- How many operands the gate has. -/
  slotCount : Nat
  /-- What it carries, once that has been worked out. -/
  signal : Option Signal
  deriving DecidableEq, Repr

end Schematic
