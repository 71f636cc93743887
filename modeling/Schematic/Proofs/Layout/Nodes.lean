import Schematic.Layout
import Schematic.Proofs.Layout.Metrics
import Schematic.Proofs.Layout.Numbering
import Schematic.Proofs.Layout.Passes

/-!
# The nodes of a layout

A layout has one node for each part of its formula. The node's number is its place, its operation
is that of the part, and it has no signal yet (`Formula.node_of_getElem?_layout`). What was measured
of it can be read off it, and its box is the one it was given
(`Formula.metrics_of_getElem?_layout`, `Formula.box_of_getElem?_layout`).
-/

namespace Schematic

/-- What was measured of a node before it was placed. -/
def Node.metrics {α : Type} (node : Node α) : Metrics α where
  level := node.level
  fanIn := node.fanIn
  width := node.box.width
  height := node.box.height

namespace Layout

/-! ### Nodes -/

section

variable {α : Type}

theorem getElem?_toNodes (first i : NodeId) (operations : List Operation)
    (metrics : List (Metrics α)) (boxes : List (Box α)) :
    (toNodes first operations metrics boxes)[i]? =
      operations[i]?.bind fun operation => metrics[i]?.bind fun m =>
        boxes[i]?.map fun box => toNode (first + i) operation m box := by
  induction operations generalizing first i metrics boxes with
  | nil => simp [toNodes]
  | cons operation operations ih =>
    cases metrics with
    | nil => simp [toNodes]
    | cons m metrics =>
      cases boxes with
      | nil => simp [toNodes]
      | cons box boxes =>
        cases i with
        | zero => simp [toNodes]
        | succ i => simp [toNodes, ih, Nat.add_assoc, Nat.add_comm 1 i]

theorem map_box_toNodes (first : NodeId) (operations : List Operation) {metrics : List (Metrics α)}
    {boxes : List (Box α)} (hmetrics : metrics.length = operations.length)
    (hboxes : boxes.length = operations.length) :
    (toNodes first operations metrics boxes).map (·.box) = boxes := by
  induction operations generalizing first metrics boxes with
  | nil => simp_all [toNodes]
  | cons operation operations ih =>
    cases metrics with
    | nil => simp at hmetrics
    | cons m metrics =>
      cases boxes with
      | nil => simp at hboxes
      | cons box boxes => simp_all [toNodes, toNode]

theorem map_metrics_toNodes (first : NodeId) (operations : List Operation)
    {metrics : List (Metrics α)} {boxes : List (Box α)}
    (hmetrics : metrics.length = operations.length)
    (hboxes : boxes.map Box.size = metrics.map fun m => (m.width, m.height)) :
    (toNodes first operations metrics boxes).map Node.metrics = metrics := by
  induction operations generalizing first metrics boxes with
  | nil => simp_all [toNodes]
  | cons operation operations ih =>
    cases metrics with
    | nil => simp at hmetrics
    | cons m metrics =>
      cases boxes with
      | nil => simp at hboxes
      | cons box boxes => simp_all [toNodes, toNode, Node.metrics, Box.size]

end

/-! ### Wires -/

/-- Every wire brings an operand to its gate. -/
theorem mem_wires {operations : List Operation} {wire : Wire} :
    wire ∈ wires operations ↔ ∃ operation, operations[wire.target]? = some operation ∧
      operation.inputs[wire.slot]? = some wire.source ∧
      wire.slotCount = operation.inputs.length ∧ wire.signal = none := by
  simp only [wires, wiresInto, List.mem_flatMap, List.mem_map, Prod.exists,
    List.mk_mem_zipIdx_iff_getElem?]
  constructor
  · rintro ⟨operation, id, hoperation, source, slot, hsource, rfl⟩
    exact ⟨operation, hoperation, hsource, rfl, rfl⟩
  · rintro ⟨operation, hoperation, hsource, hcount, hsignal⟩
    refine ⟨operation, _, hoperation, wire.source, _, hsource, ?_⟩
    rw [← hcount, ← hsignal]

end Layout

namespace Formula

open Layout

variable {α : Type} [Scalar α] (f : Formula) (settings : Settings α)

theorem map_metrics_layout :
    (f.layout settings).nodes.toList.map Node.metrics = metrics settings (operations f) :=
  map_metrics_toNodes 0 _ (by simp) (map_size_place ..)

theorem size_nodes_layout : (f.layout settings).nodes.size = f.nodeCount := by
  rw [← Array.length_toList, ← List.length_map Node.metrics, map_metrics_layout, length_metrics,
    length_operations]

/-- A node's place is its number, its operation is that of the part at the place, and it is
labelled with what it computes. -/
theorem node_of_getElem?_layout {id : NodeId} {node : Node α}
    (h : (f.layout settings).nodes[id]? = some node) :
    ∃ part, f.preOrder[id]? = some part ∧ node.id = id ∧
      node.operation = operationAt id part ∧ node.signal = none ∧
      node.label = node.operation.label := by
  simp only [layout, List.getElem?_toArray, getElem?_toNodes, Option.bind_eq_some_iff,
    Option.map_eq_some_iff, getElem?_operations] at h
  obtain ⟨_, ⟨part, hpart, rfl⟩, m, -, box, -, rfl⟩ := h
  exact ⟨part, hpart, Nat.zero_add id, rfl, rfl, rfl⟩

theorem operation_of_getElem?_layout {id : NodeId} {node : Node α}
    (h : (f.layout settings).nodes[id]? = some node) :
    (operations f)[id]? = some node.operation := by
  obtain ⟨part, hpart, -, hoperation, -⟩ := f.node_of_getElem?_layout settings h
  rw [getElem?_operations, hpart, hoperation, Option.map_some]

/-- What was measured of a node can be read off it. -/
theorem metrics_of_getElem?_layout {id : NodeId} {node : Node α}
    (h : (f.layout settings).nodes[id]? = some node) :
    (metrics settings (operations f))[id]? = some node.metrics := by
  rw [← map_metrics_layout, List.getElem?_map, Array.getElem?_toList, h, Option.map_some]

/-- The boxes of a layout. -/
def boxes : Array (Box α) :=
  place settings ((operations f).map (·.inputs)) (metrics settings (operations f))

theorem map_box_layout : (f.layout settings).nodes.toList.map (·.box) = (f.boxes settings).toList :=
  map_box_toNodes 0 _ (by simp) (by simp)

theorem getElem?_boxes (id : NodeId) :
    (f.boxes settings)[id]? = ((f.layout settings).node? id).map (·.box) := by
  rw [← Array.getElem?_toList, ← map_box_layout, List.getElem?_map, Array.getElem?_toList,
    Diagram.node?]

/-- The box of a node is the one it was given. -/
theorem box_of_getElem?_layout {id : NodeId} {node : Node α}
    (h : (f.layout settings).nodes[id]? = some node) :
    (f.boxes settings)[id]? = some node.box := by
  rw [getElem?_boxes, Diagram.node?, h, Option.map_some]

/-- Every part has its node. -/
theorem exists_node_layout {id : NodeId} {part : Formula} (h : f.preOrder[id]? = some part) :
    ∃ node, (f.layout settings).nodes[id]? = some node ∧ node.id = id ∧
      node.operation = operationAt id part := by
  have hid : id < (f.layout settings).nodes.size := by
    rw [size_nodes_layout]
    exact (List.getElem?_eq_some_iff.1 h).1
  have hnode := Array.getElem?_eq_getElem hid
  obtain ⟨part', hpart', hplace, hoperation, -⟩ := f.node_of_getElem?_layout settings hnode
  obtain rfl := Option.some.inj (h.symm.trans hpart')
  exact ⟨_, hnode, hplace, hoperation⟩

/-- The nodes of variables are the leaves of the formula. -/
theorem exists_node_var_layout_iff {letter : Char} :
    (∃ (id : NodeId) (node : Node α), (f.layout settings).nodes[id]? = some node ∧
      node.operation = .var letter) ↔ letter ∈ f.leaves := by
  constructor
  · rintro ⟨id, node, hnode, hvar⟩
    obtain ⟨part, hpart, -, hoperation, -⟩ := f.node_of_getElem?_layout settings hnode
    rw [leaves, List.mem_filterMap]
    refine ⟨part, List.mem_of_getElem? hpart, ?_⟩
    cases part <;> cases hoperation.symm.trans hvar
    rfl
  · intro hleaf
    obtain ⟨part, hpart, hname⟩ := List.mem_filterMap.1 hleaf
    obtain ⟨id, hid⟩ := List.mem_iff_getElem?.1 hpart
    obtain ⟨node, hnode, -, hoperation⟩ := f.exists_node_layout settings hid
    refine ⟨id, node, hnode, ?_⟩
    cases part <;> cases hname
    exact hoperation

/-- What a node reads is there, and has a larger number. -/
theorem exists_operand_layout {id input : NodeId} {node : Node α}
    (h : (f.layout settings).nodes[id]? = some node) (hinput : input ∈ node.operation.inputs) :
    ∃ operand, (f.layout settings).nodes[input]? = some operand ∧ id < input := by
  obtain ⟨part, hpart, -, hoperation, -⟩ := f.node_of_getElem?_layout settings h
  rw [hoperation, inputs_operationAt] at hinput
  obtain ⟨below, hbelow⟩ := mem_operandPlaces_iff.1 hinput
  obtain ⟨operand, hoperand, -⟩ :=
    f.exists_node_layout settings (of_mem_zip_operandPlaces hpart hbelow)
  exact ⟨operand, hoperand, le_of_mem_operandPlaces hinput⟩

/-- A wire leads to a node from one that it reads and that has a larger number. -/
theorem exists_ends_of_mem_wires_layout {wire : Wire} (h : wire ∈ (f.layout settings).wires) :
    ∃ source target, (f.layout settings).nodes[wire.source]? = some source ∧
      (f.layout settings).nodes[wire.target]? = some target ∧
      wire.source ∈ target.operation.inputs ∧ wire.target < wire.source := by
  simp only [layout, List.mem_toArray, mem_wires, getElem?_operations, Option.map_eq_some_iff] at h
  obtain ⟨_, ⟨part, hpart, rfl⟩, hslot, -, -⟩ := h
  obtain ⟨target, htarget, -, hoperation⟩ := f.exists_node_layout settings hpart
  have hinput : wire.source ∈ target.operation.inputs := hoperation ▸ List.mem_of_getElem? hslot
  obtain ⟨source, hsource, hlt⟩ := f.exists_operand_layout settings htarget hinput
  exact ⟨source, target, hsource, htarget, hinput, hlt⟩

/-! ### The formula -/

theorem formula_foldl_addWire (wires : List Wire) (origin : Origin) :
    (wires.foldl Origin.addWire origin).formula = origin.formula := by
  induction wires generalizing origin with
  | nil => rfl
  | cons wire wires ih => rw [List.foldl_cons, ih, Origin.addWire]

@[simp] theorem formula_layout : (f.layout settings).formula = f :=
  formula_foldl_addWire ..

end Formula

end Schematic
