import Schematic.Proofs.Evaluation.Frame
import Schematic.Proofs.Layout.Nodes

/-!
# Evaluating a layout

The signals of a layout are the strong Kleene values of the formula's parts: at every node that of
the part it stands for, on every wire that of the node it comes from, and at the root that of the
formula (`Diagram.carries_evaluate_layout`).
-/

namespace Schematic

open Evaluation Layout

/-! ### The values of the parts -/

namespace Formula

/-- The value of the part at a place of the pre-order. -/
def valueAt (f : Formula) (read : Char → Signal) (id : NodeId) : Signal :=
  f.preOrder[id]?.elim .unknown (·.value read)

variable {f part : Formula} {id : NodeId} (read : Char → Signal)

theorem valueAt_of_getElem? (h : f.preOrder[id]? = some part) :
    f.valueAt read id = part.value read := by
  rw [valueAt, h, Option.elim_some]

theorem map_valueAt_operandPlaces (h : f.preOrder[id]? = some part) :
    (operandPlaces (id + 1) part.operands).map (f.valueAt read) =
      part.operands.map (value read) := by
  have hplaces := congrArg (List.map (Option.elim · Signal.unknown (value read)))
    (getElem?_operandPlaces_of_getElem? h)
  rwa [List.map_map, List.map_map] at hplaces

/-- A part's operation gives the value of the part. -/
theorem signal_operationAt (h : f.preOrder[id]? = some part) :
    (operationAt id part).signal read (f.valueAt read) = part.value read := by
  have hoperands := map_valueAt_operandPlaces read h
  cases part with
  | var name => rfl
  | not operand =>
    have hoperand : f.valueAt read (id + 1) = operand.value read := List.singleton_inj.1 hoperands
    rw [operationAt, Operation.signal, hoperand, value]
  | and operands =>
    rw [operationAt, Operation.signal, value, values_eq_map]
    exact congrArg (Signal.combine .low) hoperands
  | or operands =>
    rw [operationAt, Operation.signal, value, values_eq_map]
    exact congrArg (Signal.combine .high) hoperands

end Formula

/-! ### What a layout meets -/

section

variable {α : Type} [Scalar α] (f : Formula) (settings : Settings α)

theorem solves_layout (read : Char → Signal) :
    Solves (f.layout settings).nodes read (f.valueAt read) := by
  constructor
  · intro id h
    rw [Array.getElem?_eq_none_iff, f.size_nodes_layout settings] at h
    rw [Formula.valueAt, List.getElem?_eq_none h, Option.elim_none]
  · intro id node h
    obtain ⟨part, hpart, -, hoperation, -⟩ := f.node_of_getElem?_layout settings h
    rw [hoperation, Formula.valueAt_of_getElem? read hpart, Formula.signal_operationAt read hpart]

/-- A node reads nodes behind it only, so no chain of operands is longer than the way to the last
node. -/
theorem shallow_layout_of_lt {depth : Nat} {id : NodeId}
    (h : (f.layout settings).nodes.size - id < depth) :
    Shallow (f.layout settings).nodes depth id := by
  induction depth generalizing id with
  | zero => exact absurd h (Nat.not_lt_zero _)
  | succ depth ih =>
    intro node hnode input hinput
    obtain ⟨part, -, -, hoperation, -⟩ := f.node_of_getElem?_layout settings hnode
    rw [hoperation, inputs_operationAt] at hinput
    have hle := Formula.le_of_mem_operandPlaces hinput
    have hid := (Array.getElem?_eq_some_iff.1 hnode).1
    apply ih
    omega

theorem shallow_layout (id : NodeId) :
    Shallow (f.layout settings).nodes (depthLimit (f.layout settings).nodes) id := by
  apply shallow_layout_of_lt
  rw [depthLimit]
  omega

theorem id_of_getElem?_layout (id : NodeId) (node : Node α)
    (h : (f.layout settings).nodes[id]? = some node) : node.id = id := by
  obtain ⟨-, -, hid, -, -⟩ := f.node_of_getElem?_layout settings h
  exact hid

theorem signal?_run_layout (switches : Switches) (unset : Unset) (id : NodeId) :
    (run (f.layout settings).nodes unset switches).signal? id =
      if id < (f.layout settings).nodes.size then some (f.valueAt (unset.reading switches) id)
      else none :=
  signal?_run (solves_layout f settings _) (shallow_layout f settings)
    (id_of_getElem?_layout f settings) id

/-- A layout reads the variables at the leaves of its formula. -/
theorem reads_layout_iff {name : Char} :
    Reads (f.layout settings).nodes name ↔ ∃ letter ∈ f.leaves, letter.toUpper = name.toUpper := by
  constructor
  · rintro ⟨id, node, letter, hnode, hvar, hletter⟩
    exact ⟨letter, (f.exists_node_var_layout_iff settings).1 ⟨id, node, hnode, hvar⟩, hletter⟩
  · rintro ⟨letter, hleaf, hletter⟩
    obtain ⟨id, node, hnode, hvar⟩ := (f.exists_node_var_layout_iff settings).2 hleaf
    exact ⟨id, node, letter, hnode, hvar, hletter⟩

end

/-! ### Values on a diagram -/

namespace Diagram

variable {α : Type} [Scalar α]

/-- A diagram carries the values of a formula's parts. -/
structure Carries (diagram : Diagram α) (f : Formula) (read : Char → Signal) : Prop where
  /-- There is a node for every part and no other one. -/
  size : diagram.nodes.size = f.nodeCount
  /-- The node at a part's place bears its number and the value of the part. -/
  node {id : NodeId} {part : Formula} : f.preOrder[id]? = some part →
    ∃ node, diagram.nodes[id]? = some node ∧ node.id = id ∧ node.signal = some (part.value read)
  /-- A wire bears the signal of the node it comes from. -/
  wire {wire : Wire} : wire ∈ diagram.wires →
    ∃ node, diagram.nodes[wire.source]? = some node ∧ wire.signal = node.signal
  /-- The diagram puts out the value of the formula. -/
  output : diagram.output = f.value read

section

variable (f : Formula) (settings : Settings α) {read : Char → Signal} {progress : Progress}
  (h : ∀ id, progress.signal? id =
    if id < (f.layout settings).nodes.size then some (f.valueAt read id) else none)

include h

theorem node_withSignals_layout {id : NodeId} {part : Formula}
    (hpart : f.preOrder[id]? = some part) :
    ∃ node, ((f.layout settings).withSignals progress).nodes[id]? = some node ∧ node.id = id ∧
      node.signal = some (part.value read) := by
  obtain ⟨node, hnode, hid, -⟩ := f.exists_node_layout settings hpart
  refine ⟨{ node with signal := progress.signal? id }, ?_, hid, ?_⟩
  · rw [getElem?_nodes_withSignals, hnode, Option.map_some]
  · show progress.signal? id = _
    rw [h, if_pos (Array.getElem?_eq_some_iff.1 hnode).1, Formula.valueAt_of_getElem? read hpart]

theorem output?_withSignals_layout :
    ((f.layout settings).withSignals progress).output? = some (f.value read) := by
  have hroot : f.preOrder[0]? = some f := by rw [Formula.preOrder_eq, List.getElem?_cons_zero]
  obtain ⟨node, hnode, -, hsignal⟩ := node_withSignals_layout f settings h hroot
  have hroot? : ((f.layout settings).withSignals progress).rootNode? = some node := hnode
  rw [output?, hroot?, Option.bind_some, hsignal]

/-- A layout with the signals of the parts carries their values. -/
theorem carries_withSignals_layout :
    ((f.layout settings).withSignals progress).Carries f read := by
  refine ⟨?_, node_withSignals_layout f settings h, fun hwire => ?_, ?_⟩
  · rw [withSignals, Array.size_mapIdx, f.size_nodes_layout settings]
  · obtain ⟨before, hbefore, rfl⟩ := Array.mem_map.1 hwire
    obtain ⟨node, -, hnode, -⟩ := f.exists_ends_of_mem_wires_layout settings hbefore
    refine ⟨{ node with signal := progress.signal? before.source }, ?_, rfl⟩
    rw [getElem?_nodes_withSignals, hnode, Option.map_some]
  · rw [output, output?_withSignals_layout f settings h, Option.getD_some]

end

/-- **A layout evaluates to strong Kleene values**: where variables without a value are unknown,
every node carries the value of its part and every wire that of the node it comes from, and the
diagram puts out the value of the formula. Where such variables are off, the values are the truth
values. -/
theorem carries_evaluate_layout (f : Formula) (settings : Settings α) (switches : Switches) :
    ((f.layout settings).evaluatePartial switches).Carries f
        (fun name => (switches.get? name).elim .unknown .ofBool) ∧
      ((f.layout settings).evaluate switches).1.Carries f
        (fun name => .ofBool (switches.getD name)) ∧
      ∀ part : Formula, part.value (fun name => .ofBool (switches.getD name)) =
        .ofBool (part.truth switches.getD) := by
  have hcarries : ∀ unset : Unset,
      ((f.layout settings).withSignals (run (f.layout settings).nodes unset switches)).Carries f
        (unset.reading switches) := by
    intro unset
    exact carries_withSignals_layout f settings (signal?_run_layout f settings switches unset)
  exact ⟨hcarries .unknown, hcarries .off, Formula.value_ofBool switches.getD⟩

end Diagram

end Schematic
