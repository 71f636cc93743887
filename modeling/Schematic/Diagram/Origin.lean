import Schematic.Diagram.Node
import Schematic.Formula

/-!
# Where a diagram comes from

A diagram remembers the formula it was laid out from, and for every node the gates it feeds and
the operand of which gate it is. The record is made once, from the wires of the layout; whatever
happens to the nodes and wires later, it stays as it is.

To find the part of the formula that a node stands for, the record is followed from the node up
to the root, and the same operands are then taken on the way down through the formula.
-/

namespace Schematic

/-- What a diagram remembers of its layout. -/
structure Origin where
  /-- The formula laid out. -/
  formula : Formula
  /-- The gates that each node feeds. -/
  parents : Array (List NodeId)
  /-- The gate that each node is an operand of, and which one; nothing for the root. -/
  operandOf : Array (Option (NodeId × Nat))
  deriving Repr

namespace Origin

/-- Enters a wire into the record. -/
def addWire (origin : Origin) (wire : Wire) : Origin :=
  { origin with
    parents := origin.parents.modify wire.source (· ++ [wire.target])
    operandOf := origin.operandOf.setIfInBounds wire.source (some (wire.target, wire.slot)) }

/-- The record of a layout with so many nodes. -/
def ofWires (formula : Formula) (count : Nat) (wires : List Wire) : Origin :=
  wires.foldl addWire ⟨formula, Array.replicate count [], Array.replicate count none⟩

/-- The operands on the way from a node up to the root, the lowest last, before the part of the
way that is known. A gate has a smaller number than its operands, so the way ends. -/
def climb (origin : Origin) (id : NodeId) (below : List Nat) : List Nat :=
  match origin.operandOf[id]? with
  | some (some (gate, slot)) =>
    if gate < id then origin.climb gate (slot :: below) else slot :: below
  | _ => below
termination_by id

/-- The operands on the way from the root down to a node. -/
def path (origin : Origin) (id : NodeId) : List Nat := origin.climb id []

/-- The part of the formula at the end of a path. -/
def follow (formula : Formula) (path : List Nat) : Option Formula :=
  path.foldlM (fun part slot => part.operands[slot]?) formula

/-- The part of the formula that a node stands for. -/
def part? (origin : Origin) (id : NodeId) : Option Formula :=
  follow origin.formula (origin.path id)

end Origin

end Schematic
