import Schematic.Proofs.Evaluation.Layout

/-!
# The table after an evaluation

Evaluating a layout settles the switches of its formula's variables and no other
(`get?_evaluate_layout`), also of those that stand under operands which no gate reads
(`evaluate_settles_variables`). What a variable counts as stays the same, so evaluating the layout
once more with the table that is left behind gives the same diagram and leaves the same table
(`evaluate_settled`).
-/

namespace Schematic.Diagram

open Evaluation

variable {α : Type} [Scalar α] (f : Formula) (settings : Settings α) (switches : Switches)

/-- The variables of the formula are settled, whatever a gate leaves unread, and no other switch is
touched. -/
theorem get?_evaluate_layout (name : Char) :
    ((f.layout settings).evaluate switches).2.get? name =
      if f.leaves.any (·.toUpper = name.toUpper) then some (switches.getD name)
      else switches.get? name := by
  have hsolves := solves_layout f settings (Unset.off.reading switches)
  have hshallow := shallow_layout f settings
  have hreads : f.leaves.any (·.toUpper = name.toUpper) = true ↔
      Reads (f.layout settings).nodes name := by
    rw [reads_layout_iff, List.any_eq_true]
    simp only [decide_eq_true_eq]
  split
  · next h =>
    exact get?_run_of_reads hsolves hshallow (id_of_getElem?_layout f settings)
      (hreads.1 h)
  · next h => exact get?_run_of_not_reads hsolves hshallow (h ∘ hreads.2)

/-- The table is that in which the variables of the formula have been settled one after the
other. -/
theorem switches_evaluate_layout :
    ((f.layout settings).evaluate switches).2 = f.leaves.foldl Switches.settle switches := by
  apply Switches.ext_get?
  intro name
  rw [get?_evaluate_layout, Switches.get?_foldl_settle]

/-- **An evaluation settles the variables of the formula** and leaves the rest of the table as it
is, though a gate reads no operand behind one that decides it: the run goes through all nodes, and
comes to the variables under such an operand by itself. -/
theorem evaluate_settles_variables :
    switches.Settles f.variableNames ((f.layout settings).evaluate switches).2 := by
  rw [switches_evaluate_layout]
  have hsettles := Switches.settles_foldl_settle f.leaves switches
  refine ⟨hsettles.kept, fun hname => hsettles.settled (Formula.mem_variableNames.1 hname),
    fun hentry => (hsettles.only hentry).imp_right ?_⟩
  rintro ⟨hnone, name, hleaf, heq⟩
  exact ⟨hnone, name, Formula.mem_variableNames.2 hleaf, heq⟩

/-- A visit to the root of `A + B` alone does not come to `B` where `A` is on. -/
example :
    let nodes := ((Formula.or [.var 'A', .var 'B']).layout (Settings.default : Settings Rat)).nodes
    let start : Progress := ⟨Array.replicate nodes.size none, .ofList [('A', true)]⟩
    (visit nodes .off (depthLimit nodes) 0 start).2.switches.get? 'B' = none ∧
      (run nodes .off start.switches).switches.get? 'B' = some false := by
  cbv

/-- What a variable counts as stays the same. -/
theorem getD_evaluate_layout (name : Char) :
    ((f.layout settings).evaluate switches).2.getD name = switches.getD name := by
  rw [Switches.getD, get?_evaluate_layout]
  split <;> rfl

/-- The table that an evaluation leaves behind is left by the next one as it is. -/
theorem switches_evaluate_settled :
    ((f.layout settings).evaluate ((f.layout settings).evaluate switches).2).2 =
      ((f.layout settings).evaluate switches).2 := by
  apply Switches.ext_get?
  intro name
  rw [get?_evaluate_layout, getD_evaluate_layout, get?_evaluate_layout]
  split <;> rfl

/-- A table that has all variables of the formula is left as it is. -/
theorem switches_evaluate_of_isSome (h : ∀ name ∈ f.leaves, (switches.get? name).isSome) :
    ((f.layout settings).evaluate switches).2 = switches := by
  apply Switches.ext_get?
  intro name
  rw [get?_evaluate_layout]
  split
  · next hany =>
    obtain ⟨leaf, hleaf, hname⟩ := List.any_eq_true.1 hany
    obtain ⟨value, hvalue⟩ := Option.isSome_iff_exists.1 (h leaf hleaf)
    rw [Switches.get?_congr _ (of_decide_eq_true hname)] at hvalue
    rw [Switches.getD, hvalue, Option.getD_some]
  · rfl

/-- Evaluating once more with the table that is left behind changes nothing. -/
theorem evaluate_settled :
    (f.layout settings).evaluate ((f.layout settings).evaluate switches).2 =
      (f.layout settings).evaluate switches := by
  have hreading : Unset.off.reading ((f.layout settings).evaluate switches).2 =
      Unset.off.reading switches := by
    funext name
    rw [Unset.reading, Unset.reading, getD_evaluate_layout]
  apply Prod.ext
  · apply withSignals_congr
    intro id
    rw [signal?_run_layout, signal?_run_layout, hreading]
  · exact switches_evaluate_settled f settings switches

/-! ### Signals -/

theorem output?_evaluate_layout :
    ((f.layout settings).evaluate switches).1.output? =
      some ((f.layout settings).evaluate switches).1.output := by
  have houtput := output?_withSignals_layout f settings
    (signal?_run_layout f settings switches .off)
  rw [output]
  simp only [evaluate, houtput, Option.getD_some]

/-- No node of an evaluated layout is unknown. -/
theorem signal_evaluate_layout {node : Node α}
    (h : node ∈ ((f.layout settings).evaluate switches).1.nodes) :
    node.signal = some .low ∨ node.signal = some .high := by
  have hcarries : ((f.layout settings).evaluate switches).1.Carries f
      (Unset.off.reading switches) :=
    carries_withSignals_layout f settings (signal?_run_layout f settings switches .off)
  obtain ⟨id, hnode⟩ := Array.mem_iff_getElem?.1 h
  have hid := (Array.getElem?_eq_some_iff.1 hnode).1
  rw [hcarries.size, Formula.nodeCount] at hid
  obtain ⟨node', hnode', -, hsignal⟩ := hcarries.node (List.getElem?_eq_getElem hid)
  obtain rfl := Option.some.inj (hnode.symm.trans hnode')
  have htruth : node.signal = some (.ofBool (f.preOrder[id].truth switches.getD)) :=
    hsignal.trans (congrArg some (Formula.value_ofBool switches.getD _))
  rw [htruth]
  cases f.preOrder[id].truth switches.getD
  · exact .inl rfl
  · exact .inr rfl

end Schematic.Diagram
