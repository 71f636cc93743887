import Schematic.Proofs.Evaluation.Layout
import Schematic.Proofs.Layout.Arena
import Schematic.Proofs.Layout.Validity

/-!
# The order of an evaluation

A run visits the nodes in the order of their levels (`pairwise_order`). In a layout the levels rise
from what is read to the node that reads it, so a node comes behind everything it reads
(`mem_before_of_hasInput`). When the run gets to it, all signals that it asks for are known, and a
visit that finds them known goes no deeper than to ask for them (`visit_of_inputs_known`).

Main result: all of this holds of every layout, however high the formula is
(`Formula.order_layout_topological`).
-/

namespace Schematic

namespace Evaluation

variable {α : Type} (nodes : Array (Node α)) (unset : Unset)

/-- The order follows the levels. -/
theorem pairwise_order : (order nodes).Pairwise fun first second =>
    (nodes[first]?.map (·.level)).getD 0 ≤ (nodes[second]?.map (·.level)).getD 0 := by
  have hgroups := Levels.pairwise_flatMap_group
    (fun id : NodeId => (nodes[id]?.map (·.level)).getD 0) (nodes.toList.map (·.id))
  rwa [List.map_map] at hgroups

/-! ### Visits that find signals -/

/-- Where every operand is found at once, it does not matter what else a visit would do. -/
theorem gather_of_known {visit visit' : NodeId → Progress → Signal × Progress}
    {inputs : List NodeId} {progress : Progress}
    (h : ∀ input ∈ inputs, ∃ signal, visit input progress = (signal, progress) ∧
      visit' input progress = (signal, progress)) (dominant : Signal) (sawUnknown : Bool) :
    gather visit dominant sawUnknown inputs progress =
      gather visit' dominant sawUnknown inputs progress := by
  induction inputs generalizing sawUnknown with
  | nil => rfl
  | cons input inputs ih =>
    obtain ⟨⟨signal, hvisit, hvisit'⟩, hinputs⟩ := List.forall_mem_cons.1 h
    simp only [gather, hvisit, hvisit', ih hinputs]

theorem work_of_known {visit visit' : NodeId → Progress → Signal × Progress}
    {operation : Operation} {progress : Progress}
    (h : ∀ input ∈ operation.inputs, ∃ signal, visit input progress = (signal, progress) ∧
      visit' input progress = (signal, progress)) :
    work visit unset progress operation = work visit' unset progress operation := by
  cases operation with
  | var name => rfl
  | not input =>
    obtain ⟨signal, hvisit, hvisit'⟩ := h input List.mem_cons_self
    simp only [work, hvisit, hvisit']
  | and inputs => exact gather_of_known h .low false
  | or inputs => exact gather_of_known h .high false

/-- A visit to a node whose operands are known asks for them and goes no deeper. -/
theorem visit_of_inputs_known {id : NodeId} {progress : Progress}
    (h : ∀ node, nodes[id]? = some node → ∀ input ∈ node.operation.inputs,
      (progress.signal? input).isSome) (depth : Nat) :
    visit nodes unset (depth + 2) id progress = visit nodes unset 2 id progress := by
  cases hknown : progress.signal? id with
  | some signal => rw [visit_of_known _ _ _ hknown, visit_of_known _ _ _ hknown]
  | none =>
    cases hnode : nodes[id]? with
    | none => rw [visit_of_missing _ _ _ hknown hnode, visit_of_missing _ _ _ hknown hnode]
    | some node =>
      have hwork : work (visit nodes unset (depth + 1)) unset progress node.operation =
          work (visit nodes unset 1) unset progress node.operation := by
        refine work_of_known unset fun input hinput => ?_
        obtain ⟨signal, hsignal⟩ := Option.isSome_iff_exists.1 (h node hnode input hinput)
        exact ⟨signal, visit_of_known _ _ _ hsignal, visit_of_known _ _ _ hsignal⟩
      rw [visit_of_node _ _ _ hknown hnode, visit_of_node _ _ _ hknown hnode, hwork]

end Evaluation

/-! ### Layouts -/

namespace Formula

open Evaluation

variable {α : Type} [Scalar α]

section

variable (f : Formula) (settings : Settings α)

/-- The order names every place once. -/
theorem order_layout_perm :
    (order (f.layout settings).nodes).Perm (List.range (f.layout settings).nodes.size) := by
  refine (order_perm _).trans (.of_eq ?_)
  apply List.ext_getElem
  · simp
  · intro id hid hrange
    rw [List.getElem_map, List.getElem_range, Array.getElem_toList]
    exact f.numbered_layout settings id _ (Array.getElem?_eq_getElem _)

/-- A node comes behind everything it reads. -/
theorem mem_before_of_hasInput {before after : List NodeId} {id input : NodeId}
    (horder : order (f.layout settings).nodes = before ++ id :: after)
    (h : (f.layout settings).HasInput id input) : input ∈ before := by
  obtain ⟨node, hnode, hinput⟩ := h
  obtain ⟨operand, hoperand, -⟩ := f.exists_operand_layout settings hnode hinput
  have hlt := f.level_lt_of_mem_inputs_layout settings hnode hinput hoperand
  have hmem : input ∈ before ++ id :: after := by
    rw [← horder, (f.order_layout_perm settings).mem_iff, List.mem_range]
    exact (Array.getElem?_eq_some_iff.1 hoperand).1
  rcases List.mem_append.1 hmem with hbefore | hbehind
  · exact hbefore
  · -- Neither the node itself nor one behind it is on a lower level.
    have hlevels := pairwise_order (f.layout settings).nodes
    rw [horder, List.pairwise_append, List.pairwise_cons] at hlevels
    rcases List.mem_cons.1 hbehind with rfl | hbehind
    · obtain rfl := Option.some.inj (hoperand.symm.trans hnode)
      exact absurd hlt (Nat.lt_irrefl _)
    · have hle := hlevels.2.1.1 input hbehind
      have hlevel : (f.layout settings).nodes[id]?.map (·.level) = some node.level :=
        congrArg (Option.map (·.level)) hnode
      rw [hlevel, hoperand] at hle
      exact absurd hlt (Nat.not_lt.2 hle)

/-- What is known when the run comes to the node that is named behind these. -/
def progressBefore (unset : Unset) (switches : Switches) (before : List NodeId) : Progress :=
  visitAll (f.layout settings).nodes unset before
    ⟨Array.replicate (f.layout settings).nodes.size none, switches⟩

/-- What a node asks for is known by then. -/
theorem isSome_signal?_progressBefore {before after : List NodeId} {id input : NodeId}
    (horder : order (f.layout settings).nodes = before ++ id :: after)
    (h : (f.layout settings).HasInput id input) (unset : Unset) (switches : Switches) :
    ((f.progressBefore settings unset switches before).signal? input).isSome := by
  have hbefore := f.mem_before_of_hasInput settings horder h
  obtain ⟨node, hnode, hinput⟩ := h
  obtain ⟨operand, hoperand, -⟩ := f.exists_operand_layout settings hnode hinput
  have hsolves := solves_layout f settings (unset.reading switches)
  have hvisited := sound_visitAll hsolves (shallow_layout f settings) before
    (sound_start (f.layout settings).nodes unset switches _)
  exact hvisited.2.2 input hbefore (Array.getElem?_eq_some_iff.1 hoperand).1

end

/-- **The order of a layout is topological**: it names every node once and each one behind
everything that it reads. So when the run comes to a node, every signal that it asks for is known
and is answered at once, and the visit goes no deeper than to ask, however high the formula is. -/
theorem order_layout_topological (f : Formula) (settings : Settings α) :
    let diagram := f.layout settings
    diagram.Numbered ∧ (order diagram.nodes).Perm (List.range diagram.nodes.size) ∧
    ∀ before id after, order diagram.nodes = before ++ id :: after →
      (∀ input, diagram.HasInput id input → input ∈ before) ∧
      ∀ (unset : Unset) (switches : Switches),
        let progress := f.progressBefore settings unset switches before
        (∀ input, diagram.HasInput id input → ∃ signal, progress.signal? input = some signal ∧
          ∀ depth, visit diagram.nodes unset (depth + 1) input progress = (signal, progress)) ∧
        ∀ depth, visit diagram.nodes unset (depth + 2) id progress =
          visit diagram.nodes unset 2 id progress := by
  intro diagram
  refine ⟨f.numbered_layout settings, f.order_layout_perm settings,
    fun before id after horder => ?_⟩
  refine ⟨fun input => f.mem_before_of_hasInput settings horder, ?_⟩
  intro unset switches progress
  have hknown (input : NodeId) (h : diagram.HasInput id input) :
      (progress.signal? input).isSome :=
    f.isSome_signal?_progressBefore settings horder h unset switches
  constructor
  · intro input hinput
    obtain ⟨signal, hsignal⟩ := Option.isSome_iff_exists.1 (hknown input hinput)
    exact ⟨signal, hsignal, fun depth => visit_of_known diagram.nodes unset depth hsignal⟩
  · exact visit_of_inputs_known diagram.nodes unset
      fun node hnode input hinput => hknown input ⟨node, hnode, hinput⟩

end Formula

end Schematic
