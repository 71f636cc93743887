import Schematic.Diagram.Origin
import Schematic.Levels

/-!
# Diagrams

A formula drawn as gates and wires on a canvas, and the questions one may ask of it. The nodes
stand in one array; a node is looked up by its place there.
-/

namespace Schematic

/-- A formula drawn as gates and wires. -/
structure Diagram (α : Type) where
  /-- The nodes, in the pre-order of the formula. -/
  nodes : Array (Node α)
  /-- The wires, gate by gate. -/
  wires : Array Wire
  /-- The width of the canvas. -/
  width : α
  /-- The height of the canvas. -/
  height : α
  /-- The node whose signal is the diagram's. -/
  root : NodeId
  /-- What the diagram was laid out from. -/
  origin : Origin
  deriving Repr

namespace Diagram

variable {α : Type}

/-! ### Nodes -/

/-- The node at a place. -/
def node? (diagram : Diagram α) (id : NodeId) : Option (Node α) := diagram.nodes[id]?

/-- The node whose signal is the diagram's. -/
def rootNode? (diagram : Diagram α) : Option (Node α) := diagram.node? diagram.root

/-- What the diagram puts out, once that has been worked out. -/
def output? (diagram : Diagram α) : Option Signal := diagram.rootNode?.bind (·.signal)

/-- The formula the diagram was laid out from. -/
def formula (diagram : Diagram α) : Formula := diagram.origin.formula

/-- The part of the formula that a node stands for. -/
def formulaOf? (diagram : Diagram α) (id : NodeId) : Option Formula :=
  if id < diagram.nodes.size then diagram.origin.part? id else none

/-- The gates that a node feeds. -/
def parents (diagram : Diagram α) (id : NodeId) : List NodeId :=
  diagram.origin.parents[id]?.getD []

/-- The nodes of each level, the lowest level first. -/
def levels (diagram : Diagram α) : List (Nat × List NodeId) :=
  Levels.group (diagram.nodes.toList.map fun node => (node.level, node.id))

/-- The highest level. -/
def maxLevel (diagram : Diagram α) : Nat :=
  Levels.highest (diagram.nodes.toList.map (·.level))

/-- The leaves of a variable, named in either case. -/
def variableNodes (diagram : Diagram α) (name : Char) : List NodeId :=
  (diagram.nodes.toList.filter (·.operation = .var name.toUpper)).map (·.id)

/-- The variable occurs in the diagram. -/
def hasVariable (diagram : Diagram α) (name : Char) : Bool :=
  !(diagram.variableNodes name).isEmpty

/-! ### Wires -/

variable [Scalar α]

/-- Where the wires of a node leave it: the middle of its right edge. -/
def outputAnchor? (diagram : Diagram α) (id : NodeId) : Option (Point α) :=
  (diagram.node? id).map fun node => ⟨node.box.right, node.box.centreY⟩

/-- Where a wire enters its gate. The pins are spread evenly down the left edge. -/
def inputAnchor? (diagram : Diagram α) (wire : Wire) : Option (Point α) :=
  (diagram.node? wire.target).map fun node =>
    let share := Scalar.whole (wire.slot + 1) / Scalar.whole (wire.slotCount + 1)
    ⟨node.box.x, node.box.y + node.box.height * share⟩

end Diagram

end Schematic
