import Schematic.Proofs.Evaluation.Visit

/-!
# What an evaluation leaves alone

An evaluation changes the signals of nodes and wires and nothing else
(`Diagram.silent_withSignals`), and it does not look at those that are there
(`Diagram.evaluate_eq_of_silent_eq`).
-/

namespace Schematic

/-! ### Without signals -/

/-- A node without its signal. -/
def Node.silent {α : Type} (node : Node α) : Node α := { node with signal := none }

/-- A wire without its signal. -/
def Wire.silent (wire : Wire) : Wire := { wire with signal := none }

namespace Evaluation

variable {α : Type} (nodes : Array (Node α)) (unset : Unset)

theorem visit_map_silent (depth : Nat) (id : NodeId) (progress : Progress) :
    visit (nodes.map Node.silent) unset depth id progress =
      visit nodes unset depth id progress := by
  induction depth generalizing id progress with
  | zero => rfl
  | succ depth ih =>
    have hvisit : visit (nodes.map Node.silent) unset depth = visit nodes unset depth := by
      funext id progress
      exact ih id progress
    cases hknown : progress.signal? id with
    | some signal =>
      rw [visit_of_known _ unset depth hknown, visit_of_known _ unset depth hknown]
    | none =>
      cases hnode : nodes[id]? with
      | none =>
        have hnode' : (nodes.map Node.silent)[id]? = none := by rw [Array.getElem?_map, hnode]; rfl
        rw [visit_of_missing _ unset depth hknown hnode,
          visit_of_missing _ unset depth hknown hnode']
      | some node =>
        have hnode' : (nodes.map Node.silent)[id]? = some node.silent := by
          rw [Array.getElem?_map, hnode]
          rfl
        rw [visit_of_node _ unset depth hknown hnode, visit_of_node _ unset depth hknown hnode',
          hvisit]
        rfl

theorem order_map_silent : order (nodes.map Node.silent) = order nodes := by
  simp only [order, Array.toList_map, List.map_map, Array.getElem?_map, Option.map_map]
  rfl

theorem run_map_silent (switches : Switches) :
    run (nodes.map Node.silent) unset switches = run nodes unset switches := by
  simp only [run, visitAll, order_map_silent, visit_map_silent, depthLimit, Array.size_map]

end Evaluation

/-! ### Diagrams -/

namespace Diagram

variable {α : Type}

/-- A diagram without its signals. -/
def silent (diagram : Diagram α) : Diagram α :=
  { diagram with
    nodes := diagram.nodes.map Node.silent
    wires := diagram.wires.map Wire.silent }

theorem getElem?_nodes_withSignals (diagram : Diagram α) (progress : Evaluation.Progress)
    (id : NodeId) : (diagram.withSignals progress).nodes[id]? =
      diagram.nodes[id]?.map ({ · with signal := progress.signal? id }) :=
  Array.getElem?_mapIdx

/-- Signals on nodes and wires are all that is put on. -/
@[simp] theorem silent_withSignals (diagram : Diagram α) (progress : Evaluation.Progress) :
    (diagram.withSignals progress).silent = diagram.silent := by
  have hnodes : (diagram.withSignals progress).nodes.map Node.silent =
      diagram.nodes.map Node.silent := by
    apply Array.ext_getElem?
    intro id
    simp only [Array.getElem?_map, getElem?_nodes_withSignals, Option.map_map]
    rfl
  have hwires : (diagram.withSignals progress).wires.map Wire.silent =
      diagram.wires.map Wire.silent := by
    simp only [withSignals, Array.map_map]
    rfl
  rw [silent, hnodes, hwires]
  rfl

theorem withSignals_silent (diagram : Diagram α) (progress : Evaluation.Progress) :
    diagram.silent.withSignals progress = diagram.withSignals progress := by
  have hnodes : (diagram.nodes.map Node.silent).mapIdx
        (fun id node => { node with signal := progress.signal? id }) =
      diagram.nodes.mapIdx fun id node => { node with signal := progress.signal? id } := by
    apply Array.ext_getElem?
    intro id
    simp only [Array.getElem?_mapIdx, Array.getElem?_map, Option.map_map]
    rfl
  simp only [withSignals, silent, hnodes, Array.map_map]
  rfl

theorem withSignals_congr (diagram : Diagram α) {progress other : Evaluation.Progress}
    (h : ∀ id, progress.signal? id = other.signal? id) :
    diagram.withSignals progress = diagram.withSignals other := by
  simp only [withSignals, h]

/-- A run does not look at signals that are there already. -/
theorem run_silent (diagram : Diagram α) (unset : Evaluation.Unset) (switches : Switches) :
    Evaluation.run diagram.silent.nodes unset switches =
      Evaluation.run diagram.nodes unset switches :=
  Evaluation.run_map_silent diagram.nodes unset switches

/-- Nor does an evaluation. -/
theorem evaluate_silent (diagram : Diagram α) (switches : Switches) :
    diagram.silent.evaluate switches = diagram.evaluate switches := by
  rw [evaluate, evaluate, withSignals_silent, run_silent]

theorem evaluate_eq_of_silent_eq {diagram other : Diagram α} (h : diagram.silent = other.silent)
    (switches : Switches) : diagram.evaluate switches = other.evaluate switches := by
  rw [← evaluate_silent, h, evaluate_silent]

/-- Nor does a partial one. -/
theorem evaluatePartial_silent (diagram : Diagram α) (switches : Switches) :
    diagram.silent.evaluatePartial switches = diagram.evaluatePartial switches := by
  rw [evaluatePartial, evaluatePartial, withSignals_silent, run_silent]

theorem evaluatePartial_eq_of_silent_eq {diagram other : Diagram α}
    (h : diagram.silent = other.silent) (switches : Switches) :
    diagram.evaluatePartial switches = other.evaluatePartial switches := by
  rw [← evaluatePartial_silent, h, evaluatePartial_silent]

/-- Evaluating a diagram that was evaluated before is evaluating it for the first time. -/
theorem evaluate_evaluate (diagram : Diagram α) (before after : Switches) :
    (diagram.evaluate before).1.evaluate after = diagram.evaluate after :=
  evaluate_eq_of_silent_eq (silent_withSignals ..) after

end Diagram

end Schematic
