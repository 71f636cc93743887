import Schematic.Diagram
import Schematic.Layout.Metrics
import Schematic.Layout.Numbering
import Schematic.Layout.Placement

/-!
# Laying out a formula

From a formula to a diagram: its parts are numbered, measured and placed, and wired operand by
operand. Nothing is evaluated yet, so no node and no wire has a signal.
-/

namespace Schematic.Layout

variable {α : Type} [Scalar α]

/-- A node that has been placed. -/
def toNode (id : NodeId) (operation : Operation) (metrics : Metrics α) (box : Box α) : Node α where
  id := id
  operation := operation
  label := operation.label
  level := metrics.level
  fanIn := metrics.fanIn
  box := box
  signal := none

/-- The nodes from `first` on. -/
def toNodes (first : NodeId) : List Operation → List (Metrics α) → List (Box α) → List (Node α)
  | operation :: operations, m :: metrics, box :: boxes =>
    toNode first operation m box :: toNodes (first + 1) operations metrics boxes
  | _, _, _ => []

/-- The wires that lead to a gate, in the order of its operands. -/
def wiresInto (target : NodeId) (inputs : List NodeId) : List Wire :=
  inputs.zipIdx.map fun (source, slot) => ⟨source, target, slot, inputs.length, none⟩

/-- The wires of a diagram, gate by gate. -/
def wires (operations : List Operation) : List Wire :=
  operations.zipIdx.flatMap fun (operation, id) => wiresInto id operation.inputs

end Schematic.Layout

namespace Schematic

variable {α : Type} [Scalar α]

/-- Draws a formula. -/
def Formula.layout (formula : Formula) (settings : Settings α) : Diagram α :=
  let operations := Layout.operations formula
  let metrics := Layout.metrics settings operations
  let boxes := Layout.place settings (operations.map (·.inputs)) metrics
  let wires := Layout.wires operations
  let (width, height) := Layout.canvas settings boxes
  { nodes := (Layout.toNodes 0 operations metrics boxes.toList).toArray
    wires := wires.toArray
    width := width
    height := height
    root := 0
    origin := .ofWires formula operations.length wires }

end Schematic
