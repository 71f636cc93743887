import Schematic.Proofs.Layout.Nodes

/-!
# The shape of a formula

A layout does not look at the names of variables, nor at which of the two signs a chain is joined
by. So formulas of one shape are drawn alike, down to the last bit and whatever the scalars are
(`Formula.drawnAlike_of_shape_eq`). No pass is followed through: the operations of the shape are the
operations without names and signs (`Layout.operations_shape`), and of these every pass takes only
what is left of them.
-/

namespace Schematic

/-! ### Shapes -/

namespace Formula

mutual

/-- The shape of a formula: the same formula with every variable called `A` and every chain made a
conjunction. -/
def shape : Formula → Formula
  | var _ => var 'A'
  | not operand => not operand.shape
  | and operands => and (shapes operands)
  | or operands => and (shapes operands)

/-- The shapes of formulas. -/
def shapes : List Formula → List Formula
  | [] => []
  | f :: fs => f.shape :: shapes fs

end

theorem shapes_eq_map (fs : List Formula) : shapes fs = fs.map shape := by
  induction fs with
  | nil => rfl
  | cons f fs ih => rw [shapes, ih, List.map_cons]

@[simp] theorem operands_shape (f : Formula) : f.shape.operands = f.operands.map shape := by
  cases f <;> simp [shape, operands, shapes_eq_map]

/-- The parts of the shape are the shapes of the parts. -/
theorem preOrder_shape (f : Formula) : f.shape.preOrder = f.preOrder.map shape := by
  induction f using inductionOnOperands with
  | step f ih =>
    have hoperands : (f.operands.map shape).flatMap preOrder =
        (f.operands.flatMap preOrder).map shape := by
      rw [List.flatMap_map, List.map_flatMap]
      exact List.flatMap_congr ih
    rw [preOrder_eq, preOrder_eq f, operands_shape, List.map_cons, hoperands]

@[simp] theorem nodeCount_shape (f : Formula) : f.shape.nodeCount = f.nodeCount := by
  rw [nodeCount, preOrder_shape, List.length_map, nodeCount]

theorem operandPlaces_map_shape (first : Nat) (fs : List Formula) :
    operandPlaces first (fs.map shape) = operandPlaces first fs := by
  induction fs generalizing first with
  | nil => rfl
  | cons f fs ih => rw [List.map_cons, operandPlaces, nodeCount_shape, ih, operandPlaces]

end Formula

/-- An operation without its name and its sign: that of the shape of its part. -/
def Operation.shape : Operation → Operation
  | var _ => var 'A'
  | not input => not input
  | and inputs => and inputs
  | or inputs => and inputs

@[simp] theorem Operation.inputs_shape (operation : Operation) :
    operation.shape.inputs = operation.inputs := by
  cases operation <;> rfl

/-! ### Passes -/

namespace Layout

theorem operationAt_shape (id : NodeId) (part : Formula) :
    operationAt id part.shape = (operationAt id part).shape := by
  cases part <;>
    simp [Formula.shape, operationAt, Operation.shape, Formula.shapes_eq_map,
      Formula.operandPlaces_map_shape]

theorem operations_shape (f : Formula) :
    operations f.shape = (operations f).map Operation.shape := by
  apply List.ext_getElem?
  intro id
  simp only [List.getElem?_map, getElem?_operations, Formula.preOrder_shape, Option.map_map]
  congr 1
  funext part
  exact operationAt_shape id part

theorem map_inputs_map_shape (operations : List Operation) :
    (operations.map Operation.shape).map (·.inputs) = operations.map (·.inputs) := by
  simp [Function.comp_def]

theorem wires_map_shape (operations : List Operation) :
    wires (operations.map Operation.shape) = wires operations := by
  simp [wires, List.zipIdx_map, List.flatMap_map]

variable {α : Type} [Scalar α] (settings : Settings α)

theorem nodeMetrics_shape (operation : Operation) (inputs : List (Metrics α)) :
    nodeMetrics settings operation.shape.gate inputs =
      nodeMetrics settings operation.gate inputs := by
  cases operation <;> rfl

theorem metricsFrom_map_shape (first : NodeId) (operations : List Operation) :
    metricsFrom settings first (operations.map Operation.shape) =
      metricsFrom settings first operations := by
  induction operations generalizing first with
  | nil => rfl
  | cons operation operations ih =>
    rw [List.map_cons, metricsFrom, ih, Operation.inputs_shape, nodeMetrics_shape, metricsFrom]

theorem metrics_operations_shape (f : Formula) :
    metrics settings (operations f.shape) = metrics settings (operations f) := by
  rw [operations_shape]
  exact metricsFrom_map_shape settings 0 (operations f)

theorem wires_operations_shape (f : Formula) :
    wires (operations f.shape) = wires (operations f) := by
  rw [operations_shape, wires_map_shape]

end Layout

/-! ### Diagrams -/

/-- Two diagrams have the same geometry: nodes at the same places, on the same levels and with the
same fan-ins, the same wires, and canvases of one size. -/
structure Diagram.DrawnAlike {α : Type} (diagram other : Diagram α) : Prop where
  /-- There are as many nodes. -/
  size : diagram.nodes.size = other.nodes.size
  /-- Nodes with one number are measured and placed alike. -/
  node {id : NodeId} {node node' : Node α} : diagram.node? id = some node →
    other.node? id = some node' →
      node.level = node'.level ∧ node.fanIn = node'.fanIn ∧ node.box = node'.box
  /-- The wires are the same. -/
  wires : diagram.wires = other.wires
  /-- The canvases are equally wide. -/
  width : diagram.width = other.width
  /-- The canvases are equally high. -/
  height : diagram.height = other.height

namespace Formula

open Layout

variable {α : Type} [Scalar α] (settings : Settings α)

theorem boxes_shape (f : Formula) : f.shape.boxes settings = f.boxes settings := by
  rw [boxes, metrics_operations_shape, operations_shape, map_inputs_map_shape, boxes]

/-- **The geometry of a layout depends on the shape only**: two formulas that differ in the names of
variables and in the signs of chains and in nothing else are drawn alike. Nothing is asked of the
scalars, so that it holds of floating-point numbers, and of settings that are no numbers. -/
theorem drawnAlike_of_shape_eq {f g : Formula} (h : f.shape = g.shape) :
    (f.layout settings).DrawnAlike (g.layout settings) := by
  have hmetrics : metrics settings (operations f) = metrics settings (operations g) := by
    rw [← metrics_operations_shape, h, metrics_operations_shape]
  have hboxes : f.boxes settings = g.boxes settings := by
    rw [← boxes_shape, h, boxes_shape]
  have hwires : wires (operations f) = wires (operations g) := by
    rw [← wires_operations_shape, h, wires_operations_shape]
  refine ⟨?_, fun {id node node'} hnode hnode' => ?_, congrArg List.toArray hwires,
    congrArg (fun boxes => (canvas settings boxes).1) hboxes,
    congrArg (fun boxes => (canvas settings boxes).2) hboxes⟩
  · rw [size_nodes_layout, size_nodes_layout, ← nodeCount_shape, h, nodeCount_shape]
  · have hm := f.metrics_of_getElem?_layout settings hnode
    have hbox := f.box_of_getElem?_layout settings hnode
    rw [hmetrics, g.metrics_of_getElem?_layout settings hnode'] at hm
    rw [hboxes, g.box_of_getElem?_layout settings hnode'] at hbox
    have hmeasured := Option.some.inj hm
    exact ⟨congrArg Metrics.level hmeasured.symm, congrArg Metrics.fanIn hmeasured.symm,
      (Option.some.inj hbox).symm⟩

/-- `A.(B + !A)` and `X + Y.!Z` are drawn alike, even where the gaps are no numbers. -/
theorem drawnAlike_of_shape_eq_nan :
    let f := Formula.and [.var 'A', .or [.var 'B', .not (.var 'A')]]
    let g := Formula.or [.var 'X', .and [.var 'Y', .not (.var 'Z')]]
    let settings : Settings Float := { Settings.default with rowGap := 0.0 / 0.0 }
    f.shape = g.shape ∧ (f.layout settings).DrawnAlike (g.layout settings) := by
  intro f g settings
  have hshape : f.shape = g.shape := by decide
  exact ⟨hshape, drawnAlike_of_shape_eq settings hshape⟩

end Formula

end Schematic
