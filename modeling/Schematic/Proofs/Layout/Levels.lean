import Schematic.Proofs.Formula.Height
import Schematic.Proofs.Layout.Validity

/-!
# The levels of a layout

A node is on the level of its part's height, and its fan-in is the number of leaves of its part
(`Formula.measure_of_getElem?_layout`). The measuring goes backwards through the operations and
skips what has not been measured; that is right because what a node reads stands behind it. So the
root is on the highest level, no level up to it is left out, and no sum of fan-ins is larger than
the number of nodes (`Formula.levels_layout`).
-/

namespace Schematic

open Layout

variable {α : Type} [Scalar α]

/-! ### Metrics of parts -/

namespace Layout

variable (settings : Settings α) {part : Formula} {inputs : List (Metrics α)}

theorem level_nodeMetrics (h : inputs.map (·.level) = part.operands.map Formula.height) :
    (nodeMetrics settings part.gate inputs).level = part.height := by
  rw [Formula.height_eq, ← h]
  cases part <;> rfl

theorem fanIn_nodeMetrics (h : inputs.map (·.fanIn) = part.operands.map Formula.leafCount) :
    (nodeMetrics settings part.gate inputs).fanIn = part.leafCount := by
  rw [Formula.leafCount_eq, ← h, List.sum_eq_foldl]
  cases part <;> rfl

/-- The metrics of the node at a part's place measure the part. -/
theorem exists_metrics_of_getElem? {f : Formula} {id : NodeId} (h : f.preOrder[id]? = some part) :
    ∃ m, (metrics settings (operations f))[id]? = some m ∧
      m.level = part.height ∧ m.fanIn = part.leafCount := by
  induction part using Formula.inductionOnOperands generalizing id with
  | step part ih =>
    have hinput : ∀ place operand,
        (place, operand) ∈
            (Formula.operandPlaces (id + 1) part.operands).zip part.operands →
          ∃ m, (if id < place then (metrics settings (operations f))[place]? else none) = some m ∧
            m.level = operand.height ∧ m.fanIn = operand.leafCount := by
      intro place operand hmem
      obtain ⟨hplace, hoperand⟩ := List.of_mem_zip hmem
      -- An operand stands behind its gate, so it has been measured before.
      have hbehind : id < place := Formula.le_of_mem_operandPlaces hplace
      rw [if_pos hbehind]
      exact ih operand hoperand (Formula.of_mem_zip_operandPlaces h hmem)
    have hgate : (operationAt id part).gate = part.gate := by cases part <;> rfl
    rw [getElem?_metrics, getElem?_operations, h, Option.map_some, Option.map_some, hgate,
      inputs_operationAt]
    refine ⟨_, rfl, level_nodeMetrics settings ?_, fanIn_nodeMetrics settings ?_⟩
    · refine Formula.map_filterMap_operandPlaces fun place operand hmem => ?_
      obtain ⟨m, hm, hlevel, -⟩ := hinput place operand hmem
      rw [hm, Option.map_some, hlevel]
    · refine Formula.map_filterMap_operandPlaces fun place operand hmem => ?_
      obtain ⟨m, hm, -, hfanIn⟩ := hinput place operand hmem
      rw [hm, Option.map_some, hfanIn]

end Layout

/-! ### Nodes of parts -/

namespace Formula

variable (f : Formula) (settings : Settings α)

/-- A node is on the level of its part's height, and as many variables stand under it as under the
part. -/
theorem measure_of_getElem?_layout {id : NodeId} {node : Node α} {part : Formula}
    (hnode : (f.layout settings).nodes[id]? = some node) (hpart : f.preOrder[id]? = some part) :
    node.level = part.height ∧ node.fanIn = part.leafCount := by
  obtain ⟨m, hm, hlevel, hfanIn⟩ := exists_metrics_of_getElem? settings hpart
  obtain rfl := Option.some.inj (hm.symm.trans (f.metrics_of_getElem?_layout settings hnode))
  exact ⟨hlevel, hfanIn⟩

/-- The fan-ins of what a node reads are the leaf counts of the operands of its part. -/
theorem fanIns_layout {id : NodeId} {part : Formula} (h : f.preOrder[id]? = some part) :
    ((operandPlaces (id + 1) part.operands).filterMap (f.layout settings).node?).map (·.fanIn) =
      part.operands.map leafCount := by
  refine map_filterMap_operandPlaces fun place operand hmem => ?_
  have hoperand := of_mem_zip_operandPlaces h hmem
  obtain ⟨node, hnode, -⟩ := f.exists_node_layout settings hoperand
  rw [Diagram.node?, hnode, Option.map_some,
    (f.measure_of_getElem?_layout settings hnode hoperand).2]

/-- The root is on the level of the formula's height. -/
theorem exists_root_layout :
    ∃ root, (f.layout settings).rootNode? = some root ∧ root.level = f.height := by
  have hroot : f.preOrder[0]? = some f := by rw [preOrder_eq, List.getElem?_cons_zero]
  obtain ⟨root, hnode, -⟩ := f.exists_node_layout settings hroot
  exact ⟨root, hnode, (f.measure_of_getElem?_layout settings hnode hroot).1⟩

/-- Every node stands for a part and is on the level of its height. -/
theorem exists_part_of_mem_layout {node : Node α} (h : node ∈ (f.layout settings).nodes) :
    ∃ (id : NodeId) (part : Formula), f.preOrder[id]? = some part ∧
      node.operation = operationAt id part ∧ node.level = part.height := by
  obtain ⟨id, hid⟩ := Array.mem_iff_getElem?.1 h
  obtain ⟨part, hpart, -, hoperation, -⟩ := f.node_of_getElem?_layout settings hid
  exact ⟨id, part, hpart, hoperation, (f.measure_of_getElem?_layout settings hid hpart).1⟩

theorem level_le_layout {node : Node α} (h : node ∈ (f.layout settings).nodes) :
    node.level ≤ f.height := by
  obtain ⟨id, part, hpart, -, hlevel⟩ := f.exists_part_of_mem_layout settings h
  rw [hlevel]
  exact height_le_of_mem_preOrder (List.mem_of_getElem? hpart)

/-- No level is above that of the root. -/
theorem maxLevel_layout : (f.layout settings).maxLevel = f.height := by
  obtain ⟨root, hroot, hlevel⟩ := f.exists_root_layout settings
  refine Levels.highest_eq_of_mem ?_ ?_
  · exact List.mem_map.2 ⟨root, Array.mem_toList_iff.2 (Array.mem_of_getElem? hroot), hlevel⟩
  · rw [List.forall_mem_map]
    exact fun node hnode => f.level_le_layout settings (Array.mem_toList_iff.1 hnode)

end Formula

/-! ### Diagrams -/

/-- The levels and the fan-ins of a diagram measure the parts of a formula. -/
structure Diagram.Measures (diagram : Diagram α) (f : Formula) : Prop where
  /-- There is a node for every part and no other one. -/
  size : diagram.nodes.size = f.nodeCount
  /-- A node is on the level of its part's height, and as many variables stand under it as under
  its part. -/
  node {id : NodeId} {node : Node α} : diagram.node? id = some node →
    ∃ part, f.parts[id]? = some part ∧ node.level = part.height ∧ node.fanIn = part.leafCount
  /-- The nodes of variables, and no other ones, are on level zero. -/
  leaf {node : Node α} : node ∈ diagram.nodes →
    (node.level = 0 ↔ ∃ name, node.operation = .var name)
  /-- A wire leads to a higher level. -/
  wire {wire : Wire} : wire ∈ diagram.wires →
    ∃ source target, diagram.node? wire.source = some source ∧
      diagram.node? wire.target = some target ∧ source.level < target.level
  /-- The root is on the highest level. -/
  root : ∃ root, diagram.rootNode? = some root ∧ diagram.maxLevel = root.level ∧
    ∀ node ∈ diagram.nodes, node.level ≤ root.level
  /-- No level is larger than the number of nodes. -/
  level_le {node : Node α} : node ∈ diagram.nodes → node.level ≤ diagram.nodes.size
  /-- Nor is a sum of fan-ins, however far it has got. -/
  sum_le {node : Node α} {summed : List Nat} : node ∈ diagram.nodes →
    summed <+: (node.operation.inputs.filterMap diagram.node?).map (·.fanIn) →
      summed.sum ≤ diagram.nodes.size

namespace Formula

variable (f : Formula) (settings : Settings α)

/-- No fan-ins of what a node reads add up to more than the number of nodes. -/
theorem sum_fanIns_layout_le {id : NodeId} {part : Formula} (h : f.preOrder[id]? = some part)
    {summed : List Nat} (hsummed : summed <+:
      ((operandPlaces (id + 1) part.operands).filterMap (f.layout settings).node?).map (·.fanIn)) :
    summed.sum ≤ f.nodeCount := by
  rw [f.fanIns_layout settings h] at hsummed
  calc
    summed.sum ≤ (part.operands.map leafCount).sum :=
      hsummed.sublist.sum_le_sum fun _ _ => Nat.zero_le _
    _ ≤ part.leafCount := part.sum_leafCount_operands_le
    _ ≤ part.nodeCount := part.leafCount_le_nodeCount
    _ ≤ f.nodeCount := nodeCount_le_of_getElem? h

theorem measures_layout : (f.layout settings).Measures f := by
  refine ⟨f.size_nodes_layout settings, fun hnode => ?_, fun hmem => ?_,
    f.level_lt_of_mem_wires_layout settings, ?_, fun hmem => ?_, fun hmem hsummed => ?_⟩
  · obtain ⟨part, hpart, -⟩ := f.node_of_getElem?_layout settings hnode
    refine ⟨part, ?_, f.measure_of_getElem?_layout settings hnode hpart⟩
    rwa [← preOrder_eq_parts]
  · obtain ⟨id, part, -, hoperation, hlevel⟩ := f.exists_part_of_mem_layout settings hmem
    rw [hlevel, height_eq_zero_iff, hoperation]
    cases part <;> simp [operationAt, gate]
  · obtain ⟨root, hroot, hlevel⟩ := f.exists_root_layout settings
    refine ⟨root, hroot, ?_, fun node hnode => ?_⟩
    · rw [f.maxLevel_layout settings, hlevel]
    · rw [hlevel]
      exact f.level_le_layout settings hnode
  · rw [f.size_nodes_layout settings]
    exact Nat.le_trans (f.level_le_layout settings hmem) f.height_le_nodeCount
  · obtain ⟨id, part, hpart, hoperation, -⟩ := f.exists_part_of_mem_layout settings hmem
    rw [hoperation, inputs_operationAt] at hsummed
    rw [f.size_nodes_layout settings]
    exact f.sum_fanIns_layout_le settings hpart hsummed

/-- **Levels and fan-ins are the recursive ones**: they measure the parts of the formula, wires lead
to higher levels, and the root is on the highest one. Where every chain has an operand, there is a
node on every level up to that of the root. -/
theorem levels_layout :
    (f.layout settings).Measures f ∧
      (.and [] ∉ f.parts → .or [] ∉ f.parts → ∀ level ≤ (f.layout settings).maxLevel,
        ∃ node ∈ (f.layout settings).nodes, node.level = level) := by
  refine ⟨f.measures_layout settings, fun hand hor level hle => ?_⟩
  rw [← preOrder_eq_parts] at hand hor
  rw [f.maxLevel_layout settings] at hle
  obtain ⟨part, hmem, rfl⟩ := exists_part_of_le_height hand hor hle
  obtain ⟨id, hpart⟩ := List.mem_iff_getElem?.1 hmem
  obtain ⟨node, hnode, -⟩ := f.exists_node_layout settings hpart
  exact ⟨node, Array.mem_of_getElem? hnode,
    (f.measure_of_getElem?_layout settings hnode hpart).1⟩

/-- In `A + !(!B.A)` the branches are of different heights, and the levels are 0 to 4. -/
theorem levels_layout_unbalanced :
    let f := Formula.or [.var 'A', .not (.and [.not (.var 'B'), .var 'A'])]
    let diagram := f.layout (Settings.default : Settings Rat)
    diagram.Measures f ∧ diagram.maxLevel = 4 ∧
      ∀ level ≤ 4, ∃ node ∈ diagram.nodes, node.level = level := by
  intro f diagram
  have hmax : diagram.maxLevel = 4 := (f.maxLevel_layout _).trans (by decide)
  obtain ⟨hmeasures, hlevels⟩ := f.levels_layout (Settings.default : Settings Rat)
  exact ⟨hmeasures, hmax, hmax ▸ hlevels (by decide) (by decide)⟩

end Formula

end Schematic
