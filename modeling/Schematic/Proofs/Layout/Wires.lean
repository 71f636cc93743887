import Schematic.Proofs.Layout.Arena

/-!
# The wires of a layout

The wires of a layout are the operand tree of its formula. Each brings one operand to its gate, and
they stand in the order of gates and operands (`pairwise_wires`). The operands of all gates together
are the nodes behind the root, each once (`sources_wires_perm`). So a node other than the root feeds
one gate and has that gate for its only parent, the parents lead up to the root, and there is one
wire less than there are nodes (`Formula.wires_form_tree`).
-/

namespace Schematic

open Relation

variable {α : Type}

/-- A wire comes before another one: it leads to an earlier gate, or to an earlier pin of the same
gate. -/
def Wire.Before (wire other : Wire) : Prop :=
  wire.target < other.target ∨ wire.target = other.target ∧ wire.slot < other.slot

/-- The wires that leave a node. -/
def Diagram.wiresFrom (diagram : Diagram α) (id : NodeId) : List Wire :=
  diagram.wires.toList.filter (·.source = id)

/-- The second node is a parent of the first one. -/
def Diagram.HasParent (diagram : Diagram α) (id parent : NodeId) : Prop :=
  parent ∈ diagram.parents id

/-- The wires of a diagram are the operand tree of a formula. -/
structure Diagram.WiredAs (diagram : Diagram α) (f : Formula) : Prop where
  /-- There is a node for every part and no other one. -/
  size : diagram.nodes.size = f.nodeCount
  /-- The wires stand in the order of their gates, and at a gate in the order of its operands. -/
  ordered : diagram.wires.toList.Pairwise Wire.Before
  /-- There is a wire for every operand of every gate, and no other one. -/
  mem_iff {wire : Wire} : wire ∈ diagram.wires ↔ ∃ gate ∈ diagram.nodes, wire.target = gate.id ∧
    gate.operation.inputs[wire.slot]? = some wire.source ∧
    wire.slotCount = gate.operation.inputs.length ∧ wire.signal = none
  /-- What a wire brings to its gate is the operand of the gate's part. -/
  operand {wire : Wire} : wire ∈ diagram.wires → ∃ part operand,
    f.parts[wire.target]? = some part ∧ part.operands[wire.slot]? = some operand ∧
    f.parts[wire.source]? = some operand
  /-- The root is the first node. -/
  root : diagram.root = 0
  /-- The root feeds nothing. -/
  wiresFrom_root : diagram.wiresFrom diagram.root = []
  /-- Every other node feeds one gate, which is its only parent. -/
  wiresFrom {id : NodeId} : 0 < id → id < diagram.nodes.size →
    ∃ wire, diagram.wiresFrom id = [wire] ∧ diagram.parents id = [wire.target]
  /-- There is one wire less than there are nodes. -/
  count : diagram.wires.size + 1 = diagram.nodes.size
  /-- The root has no parent. -/
  parents_root : diagram.parents diagram.root = []
  /-- Nor has what is no node. -/
  parents_outside {id : NodeId} : diagram.nodes.size ≤ id → diagram.parents id = []
  /-- The parents of a node lead up to the root. -/
  reaches_root {id : NodeId} : id < diagram.nodes.size →
    ReflTransGen diagram.HasParent id diagram.root

namespace Layout

open Formula (operandPlaces preOrder)

/-! ### The order of wires -/

theorem pairwise_zipIdx {β : Type} (items : List β) (first : Nat) :
    (items.zipIdx first).Pairwise fun a b => a.2 < b.2 := by
  rw [← List.pairwise_map (R := (· < ·)), List.zipIdx_map_snd]
  exact List.pairwise_lt_range'

/-- The wires stand in the order of their gates, and at a gate in the order of its operands. -/
theorem pairwise_wires (operations : List Operation) :
    (wires operations).Pairwise Wire.Before := by
  refine List.pairwise_flatMap.2 ⟨fun (operation, id) _ => ?_, ?_⟩
  · refine List.pairwise_map.2 ((pairwise_zipIdx ..).imp fun hlt => ?_)
    exact .inr ⟨rfl, hlt⟩
  · refine (pairwise_zipIdx ..).imp fun hlt wire hwire other hother => ?_
    obtain ⟨-, -, rfl⟩ := List.mem_map.1 hwire
    obtain ⟨-, -, rfl⟩ := List.mem_map.1 hother
    exact .inl hlt

/-! ### The sources of wires -/

/-- What the nodes read of which the operations are given, node by node. -/
def allInputs (operations : List Operation) : List NodeId := operations.flatMap (·.inputs)

theorem map_source_wires (operations : List Operation) :
    (wires operations).map (·.source) = allInputs operations := by
  have hinto : ∀ target inputs, (wiresInto target inputs).map (·.source) = inputs := by
    intro target inputs
    rw [wiresInto, List.map_map]
    exact List.zipIdx_map_fst 0 inputs
  rw [wires, List.map_flatMap, allInputs]
  simp only [hinto]
  rw [← List.flatMap_map, List.zipIdx_map_fst]

/-- The operands of formulas that are numbered one after the other, and what is read by the parts of
each, are all their numbers. -/
theorem allInputs_flatMap_perm {fs : List Formula}
    (h : ∀ f ∈ fs, ∀ first,
      (first :: allInputs (operationsFrom first f.preOrder)).Perm (List.range' first f.nodeCount))
    (first : NodeId) :
    (operandPlaces first fs ++ allInputs (operationsFrom first (fs.flatMap preOrder))).Perm
      (List.range' first (fs.flatMap preOrder).length) := by
  induction fs generalizing first with
  | nil => exact .refl _
  | cons f fs ih =>
    obtain ⟨hf, hfs⟩ := List.forall_mem_cons.1 h
    rw [operandPlaces, List.flatMap_cons, operationsFrom_append, allInputs, List.flatMap_append,
      List.length_append, ← List.range'_append_1, List.cons_append]
    exact ((List.perm_append_comm_assoc ..).cons first).trans
      ((hf first).append (ih hfs (first + f.nodeCount)))

/-- What is read by a formula's nodes, with the root, are the numbers of its nodes, each once. -/
theorem allInputs_perm (f : Formula) (first : NodeId) :
    (first :: allInputs (operationsFrom first f.preOrder)).Perm
      (List.range' first f.nodeCount) := by
  induction f using Formula.inductionOnOperands generalizing first with
  | step f ih =>
    rw [Formula.nodeCount_eq, Formula.preOrder_eq, operationsFrom_cons, allInputs,
      List.flatMap_cons,
      inputs_operationAt, List.range'_succ]
    exact (allInputs_flatMap_perm ih (first + 1)).cons first

/-- The sources of the wires are the nodes behind the root, each once. -/
theorem sources_wires_perm (f : Formula) :
    ((wires (operations f)).map (·.source)).Perm (List.range' 1 (f.nodeCount - 1)) := by
  have hall := allInputs_perm f 0
  rw [← operations_eq, ← map_source_wires, Formula.nodeCount_eq, List.range'_succ] at hall
  rw [Formula.nodeCount_eq]
  exact hall.cons_inv

theorem length_wires (f : Formula) : (wires (operations f)).length + 1 = f.nodeCount := by
  have hlength := (sources_wires_perm f).length_eq
  rw [List.length_map, List.length_range'] at hlength
  rw [hlength, Formula.nodeCount_eq, Nat.add_sub_cancel]

end Layout

/-! ### The record of the wires -/

/-- A node's parents are the targets of the wires that leave it. -/
theorem Origin.getElem?_parents_foldl (wires : List Wire) (origin : Origin) (id : NodeId) :
    (wires.foldl addWire origin).parents[id]? =
      origin.parents[id]?.map (· ++ (wires.filter (·.source = id)).map (·.target)) := by
  induction wires generalizing origin with
  | nil => simp
  | cons wire wires ih =>
    rw [List.foldl_cons, ih, addWire, Array.getElem?_modify]
    by_cases heq : wire.source = id
    · simp [heq, Function.comp_def]
    · simp [heq]

namespace Formula

open Layout

variable [Scalar α] (f : Formula) (settings : Settings α)

theorem wires_layout : (f.layout settings).wires.toList = wires (operations f) := rfl

theorem parents_layout (id : NodeId) :
    (f.layout settings).parents id =
      if id < f.nodeCount then ((f.layout settings).wiresFrom id).map (·.target) else [] := by
  rw [Diagram.parents, layout, Origin.ofWires, Origin.getElem?_parents_foldl,
    Array.getElem?_replicate, length_operations]
  split
  · rfl
  · rfl

/-- Every node but the root feeds one gate. -/
theorem length_wiresFrom_layout (id : Nat) :
    ((f.layout settings).wiresFrom id).length =
      if 0 < id ∧ id < f.nodeCount then 1 else 0 := by
  have hcount : ((f.layout settings).wiresFrom id).length =
      ((wires (operations f)).map (·.source)).count id := by
    rw [List.count_eq_countP, List.countP_map, List.countP_eq_length_filter]
    exact congrArg List.length (List.filter_congr fun wire _ => (beq_eq_decide ..).symm)
  have hmem : id ∈ List.range' 1 (f.nodeCount - 1) ↔ 0 < id ∧ id < f.nodeCount := by
    rw [List.mem_range'_1, f.nodeCount_eq]
    omega
  rw [hcount, (sources_wires_perm f).count_eq, (List.nodup_range' 1).count]
  simp only [hmem]

theorem wiresFrom_root_layout : (f.layout settings).wiresFrom (f.layout settings).root = [] := by
  rw [← List.length_eq_zero_iff, length_wiresFrom_layout]
  rfl

theorem exists_wiresFrom_layout {id : NodeId} (hpos : 0 < id) (hlt : id < f.nodeCount) :
    ∃ wire, (f.layout settings).wiresFrom id = [wire] ∧
      (f.layout settings).parents id = [wire.target] := by
  have hlength := f.length_wiresFrom_layout settings id
  rw [if_pos ⟨hpos, hlt⟩, List.length_eq_one_iff] at hlength
  obtain ⟨wire, hwire⟩ := hlength
  refine ⟨wire, hwire, ?_⟩
  rw [parents_layout, if_pos hlt, hwire, List.map_singleton]

theorem mem_wires_layout_iff {wire : Wire} :
    wire ∈ (f.layout settings).wires ↔
      ∃ gate ∈ (f.layout settings).nodes, wire.target = gate.id ∧
        gate.operation.inputs[wire.slot]? = some wire.source ∧
        wire.slotCount = gate.operation.inputs.length ∧ wire.signal = none := by
  rw [← Array.mem_toList_iff, wires_layout, mem_wires]
  constructor
  · rintro ⟨operation, hoperation, hslot⟩
    rw [getElem?_operations, Option.map_eq_some_iff] at hoperation
    obtain ⟨part, hpart, rfl⟩ := hoperation
    obtain ⟨gate, hgate, hid, hsame⟩ := f.exists_node_layout settings hpart
    rw [← hsame] at hslot
    exact ⟨gate, Array.mem_of_getElem? hgate, hid.symm, hslot⟩
  · rintro ⟨gate, hgate, htarget, hslot⟩
    obtain ⟨id, hid⟩ := Array.mem_iff_getElem?.1 hgate
    obtain ⟨-, -, hplace, -⟩ := f.node_of_getElem?_layout settings hid
    refine ⟨gate.operation, ?_, hslot⟩
    rw [htarget, hplace]
    exact f.operation_of_getElem?_layout settings hid

/-- A wire brings an operand of its gate's part. -/
theorem exists_operand_of_mem_wires_layout {wire : Wire}
    (h : wire ∈ (f.layout settings).wires) :
    ∃ part operand, f.preOrder[wire.target]? = some part ∧
      part.operands[wire.slot]? = some operand ∧ f.preOrder[wire.source]? = some operand := by
  rw [← Array.mem_toList_iff, wires_layout, mem_wires] at h
  obtain ⟨operation, hoperation, hslot, -⟩ := h
  rw [getElem?_operations, Option.map_eq_some_iff] at hoperation
  obtain ⟨part, hpart, rfl⟩ := hoperation
  rw [inputs_operationAt] at hslot
  have hat := congrArg (·[wire.slot]?) (getElem?_operandPlaces_of_getElem? hpart)
  simp only [List.getElem?_map, hslot, Option.map_some] at hat
  obtain ⟨operand, hoperand, hsource⟩ := Option.map_eq_some_iff.1 hat.symm
  exact ⟨part, operand, hpart, hoperand, hsource.symm⟩

/-- A parent has a smaller number, so the parents of a node lead up to the root. -/
theorem reaches_root_layout {id : NodeId} (h : id < f.nodeCount) :
    ReflTransGen (f.layout settings).HasParent id (f.layout settings).root := by
  induction id using Nat.strongRecOn with
  | ind id ih =>
    rcases Nat.eq_zero_or_pos id with rfl | hpos
    · exact .refl
    · obtain ⟨wire, hfrom, hparents⟩ := f.exists_wiresFrom_layout settings hpos h
      have hmem : wire ∈ (f.layout settings).wiresFrom id := hfrom ▸ List.mem_singleton_self wire
      obtain ⟨hwire, hsource⟩ := List.mem_filter.1 hmem
      obtain ⟨-, -, -, -, -, hlt⟩ :=
        f.exists_ends_of_mem_wires_layout settings (Array.mem_toList_iff.1 hwire)
      rw [of_decide_eq_true hsource] at hlt
      refine .head ?_ (ih wire.target hlt (hlt.trans h))
      rw [Diagram.HasParent, hparents]
      exact List.mem_singleton_self _

/-- **The wires form the operand tree**: there is a wire for every operand of every gate, in the
order of gates and operands. Every node but the root feeds one gate, its only parent, and the
parents of every node lead up to the root. -/
theorem wires_form_tree : (f.layout settings).WiredAs f := by
  have hsize := f.size_nodes_layout settings
  refine ⟨hsize, pairwise_wires _, f.mem_wires_layout_iff settings, fun hwire => ?_, rfl,
    f.wiresFrom_root_layout settings, fun hpos hlt => ?_, ?_, ?_, fun hle => ?_, fun hlt => ?_⟩
  · rw [← preOrder_eq_parts]
    exact f.exists_operand_of_mem_wires_layout settings hwire
  · exact f.exists_wiresFrom_layout settings hpos (hsize ▸ hlt)
  · rw [hsize, ← length_wires f]
    rfl
  · rw [parents_layout, wiresFrom_root_layout]
    exact ite_self _
  · rw [parents_layout]
    exact if_neg (Nat.not_lt.2 (hsize ▸ hle))
  · exact f.reaches_root_layout settings (hsize ▸ hlt)

end Formula

end Schematic
