import Mathlib.Logic.Relation
import Schematic.Proofs.Layout.Nodes

/-!
# The arena of a layout

The nodes of a layout are the parts of its formula in pre-order: every node mirrors the part at its
place, and what stands under a node takes the places from its own on, one for each part of the part
it mirrors (`over_layout_iff`). So the whole arena can be read off the formula
(`Formula.arena_mirrors_parts`).
-/

namespace Schematic

open Relation

variable {α : Type}

/-! ### Mirroring -/

/-- A node mirrors the part at a place. -/
structure Node.Mirrors (node : Node α) (id : NodeId) (part : Formula) : Prop where
  /-- The place is the node's number. -/
  place : node.id = id
  /-- The node is drawn as the part's gate. -/
  gate : node.operation.gate = part.gate
  /-- The node of a variable reads its switch. -/
  name {name : Char} : part = .var name → node.operation = .var name
  /-- The variable or the key of the gate is written on the node. -/
  label : node.label = part.name?.elim part.gate.key String.singleton
  /-- The node of the first operand is the next one, and that of every other operand comes after
  all parts of the operand before it. -/
  inputs : node.operation.inputs = Formula.operandPlaces (id + 1) part.operands

theorem Layout.label_operationAt (id : NodeId) (part : Formula) :
    (operationAt id part).label = part.name?.elim part.gate.key String.singleton := by
  cases part <;> rfl

/-- A node reads another one. -/
def Diagram.HasInput (diagram : Diagram α) (id input : NodeId) : Prop :=
  ∃ node, diagram.node? id = some node ∧ input ∈ node.operation.inputs

/-- One node stands over another: it is that node, or reads a node that stands over it. -/
def Diagram.Over (diagram : Diagram α) : NodeId → NodeId → Prop := ReflTransGen diagram.HasInput

/-! ### The nodes under a node -/

namespace Formula

variable [Scalar α] (f : Formula) (settings : Settings α)

/-- A node mirrors the part at its place. -/
theorem mirrors_layout {id : NodeId} {node : Node α}
    (h : (f.layout settings).nodes[id]? = some node) :
    ∃ part, f.preOrder[id]? = some part ∧ node.Mirrors id part := by
  obtain ⟨part, hpart, hid, hoperation, -, hlabel⟩ := f.node_of_getElem?_layout settings h
  refine ⟨part, hpart, hid, ?_, ?_, ?_, ?_⟩
  · rw [hoperation]
    cases part <;> rfl
  · rintro name rfl
    exact hoperation
  · rw [hlabel, hoperation, Layout.label_operationAt]
  · rw [hoperation, Layout.inputs_operationAt]

theorem hasInput_layout_iff {id input : NodeId} {part : Formula} (h : f.preOrder[id]? = some part) :
    (f.layout settings).HasInput id input ↔
      ∃ operand, (input, operand) ∈ (operandPlaces (id + 1) part.operands).zip part.operands := by
  obtain ⟨node, hnode, -, hoperation⟩ := f.exists_node_layout settings h
  rw [← mem_operandPlaces_iff, ← Layout.inputs_operationAt, ← hoperation]
  constructor
  · rintro ⟨other, hother, hinput⟩
    rwa [Option.some.inj (hnode.symm.trans hother)]
  · intro hinput
    exact ⟨node, hnode, hinput⟩

/-- The nodes under a node are as many as its part has parts, and follow each other from its own
place on. -/
theorem over_layout_iff {id place : Nat} {part : Formula} (h : f.preOrder[id]? = some part) :
    (f.layout settings).Over id place ↔ id ≤ place ∧ place < id + part.nodeCount := by
  induction part using inductionOnOperands generalizing id place with
  | step part ih =>
    have hbelow : (∃ input, (f.layout settings).HasInput id input ∧
          (f.layout settings).Over input place) ↔
        ∃ start operand,
          (start, operand) ∈ (operandPlaces (id + 1) part.operands).zip part.operands ∧
            start ≤ place ∧ place < start + operand.nodeCount := by
      simp only [f.hasInput_layout_iff settings h, ← exists_and_right]
      refine exists_congr fun start => exists_congr fun operand =>
        and_congr_right fun hoperand => ?_
      exact ih operand (List.of_mem_zip hoperand).2 (of_mem_zip_operandPlaces h hoperand)
    have hhead : (f.layout settings).Over id place ↔ id = place ∨
        ∃ input, (f.layout settings).HasInput id input ∧ (f.layout settings).Over input place :=
      ReflTransGen.cases_head_iff
    rw [hhead, hbelow, exists_mem_zip_operandPlaces_iff, nodeCount_eq]
    omega

/-- **The arena is the formula in pre-order**: there is a node for every part, and it mirrors the
part at its place. The nodes under it take the places from its own on, one for each part of its
part, and those it reads have larger numbers than itself. -/
theorem arena_mirrors_parts :
    (f.layout settings).nodes.size = f.nodeCount ∧ f.parts.length = f.nodeCount ∧
      ∀ id node, (f.layout settings).nodes[id]? = some node →
        ∃ part, f.parts[id]? = some part ∧ node.Mirrors id part ∧
          (∀ place, (f.layout settings).Over id place ↔
            id ≤ place ∧ place < id + part.nodeCount) ∧
          ∀ input ∈ node.operation.inputs, id < input := by
  rw [← preOrder_eq_parts]
  refine ⟨f.size_nodes_layout settings, rfl, fun id node hnode => ?_⟩
  obtain ⟨part, hpart, hmirrors⟩ := f.mirrors_layout settings hnode
  refine ⟨part, hpart, hmirrors, fun place => f.over_layout_iff settings hpart,
    fun input hinput => ?_⟩
  rw [hmirrors.inputs] at hinput
  exact le_of_mem_operandPlaces hinput

end Formula

end Schematic
