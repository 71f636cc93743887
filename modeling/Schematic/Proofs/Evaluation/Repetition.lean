import Schematic.Proofs.Evaluation.Monotone

/-!
# Evaluating again

An evaluation with the table that it has left behind does all over again what it did the first time:
every switch counts as what it counted as, and every switch that was switched off then has a value
now. Reading a variable is repeated in this sense, and so is everything that is put together from
acts that are (`Repeats`), up to the whole run (`run_again`). This holds of nodes with any names and
levels, even where nodes have no signal in the end.

Main result: an evaluation writes signals only, whatever signals there were, and a second one
changes nothing (`Diagram.evaluate_overwrites`).
-/

namespace Schematic

/-! ### Tables that have been settled -/

/-- In the table `after` some switches of `before` that had no value may be off. -/
structure Switches.Grows (before after : Switches) : Prop where
  /-- What a switch counts as stays the same. -/
  getD_eq (name : Char) : after.getD name = before.getD name
  /-- No value is lost. -/
  isSome {name : Char} : (before.get? name).isSome → (after.get? name).isSome

namespace Switches.Grows

theorem refl (switches : Switches) : switches.Grows switches := ⟨fun _ => rfl, id⟩

theorem trans {first second third : Switches} (h : first.Grows second) (h' : second.Grows third) :
    first.Grows third :=
  ⟨fun name => (h'.getD_eq name).trans (h.getD_eq name), h'.isSome ∘ h.isSome⟩

end Switches.Grows

theorem Switches.grows_settle (switches : Switches) (name : Char) :
    switches.Grows (switches.settle name) :=
  ⟨switches.getD_settle name, isSome_get?_settle name⟩

namespace Evaluation

variable {α : Type}

/-! ### Acts that are repeated -/

/-- An act only settles switches, and in a table where they are settled it does the same again
without a change to the table. -/
structure Repeats (act : Progress → Signal × Progress) : Prop where
  /-- It only settles switches. -/
  grows (progress : Progress) : progress.switches.Grows (act progress).2.switches
  /-- It does the same again. -/
  again {progress : Progress} {table : Switches} : (act progress).2.switches.Grows table →
    act { progress with switches := table } =
      ((act progress).1, { (act progress).2 with switches := table })

/-- A table with some switches settled, and all of those that matter, is left as it is. -/
theorem repeats_read (name : Char) : Repeats (Progress.read .off name) := by
  refine ⟨fun progress => progress.switches.grows_settle name, fun {progress table} h => ?_⟩
  have hgrows := (progress.switches.grows_settle name).trans h
  have hsettled : table.settle name = table :=
    Switches.settle_of_isSome (h.isSome (isSome_get?_read name progress))
  simp only [Progress.read, hgrows.getD_eq, hsettled]

theorem repeats_known (signal : Signal) : Repeats fun progress => (signal, progress) :=
  ⟨fun progress => .refl progress.switches, fun _ => rfl⟩

section

variable {act act' : Progress → Signal × Progress}

theorem Repeats.map (f : Signal → Signal) (h : Repeats act) :
    Repeats fun progress => (f (act progress).1, (act progress).2) := by
  refine ⟨h.grows, fun {progress table} htable => ?_⟩
  simp only [h.again htable]

theorem Repeats.remember (id : NodeId) (h : Repeats act) :
    Repeats fun progress => ((act progress).1, (act progress).2.remember id (act progress).1) := by
  refine ⟨h.grows, fun {progress table} htable => ?_⟩
  have hagain : act { progress with switches := table } =
      ((act progress).1, { (act progress).2 with switches := table }) := h.again htable
  simp only [hagain]
  rfl

/-- The operands of a gate are read again up to the one that decides it. -/
theorem repeats_gather {visit : NodeId → Progress → Signal × Progress} {dominant : Signal}
    {inputs : List NodeId} (sawUnknown : Bool) (h : ∀ input ∈ inputs, Repeats (visit input)) :
    Repeats (gather visit dominant sawUnknown inputs) := by
  induction inputs generalizing sawUnknown with
  | nil => exact repeats_known _
  | cons input inputs ih =>
    obtain ⟨hinput, hinputs⟩ := List.forall_mem_cons.1 h
    constructor
    · intro progress
      simp only [gather]
      split
      · exact hinput.grows progress
      · exact (hinput.grows progress).trans ((ih _ hinputs).grows _)
    · intro progress table htable
      simp only [gather] at htable ⊢
      by_cases hdominant : (visit input progress).1 = dominant
      · rw [if_pos hdominant] at htable ⊢
        rw [hinput.again htable, if_pos hdominant]
      · rw [if_neg hdominant] at htable ⊢
        have hrest := ih (sawUnknown || (visit input progress).1 = .unknown) hinputs
        rw [hinput.again ((hrest.grows _).trans htable), if_neg hdominant]
        exact hrest.again htable

theorem repeats_work {visit : NodeId → Progress → Signal × Progress} (operation : Operation)
    (h : ∀ input ∈ operation.inputs, Repeats (visit input)) :
    Repeats fun progress => work visit .off progress operation := by
  cases operation with
  | var name => exact repeats_read name
  | not input => exact (h input List.mem_cons_self).map Signal.invert
  | and inputs => exact repeats_gather false h
  | or inputs => exact repeats_gather false h

end

/-! ### Visits and runs -/

section

variable (nodes : Array (Node α))

/-- A visit goes the same way again, since which way it goes is up to the signals that are known. -/
theorem repeats_visit (depth : Nat) (id : NodeId) : Repeats (visit nodes .off depth id) := by
  induction depth generalizing id with
  | zero => exact repeats_known _
  | succ depth ih =>
    have hnode (node : Node α) :=
      (repeats_work node.operation fun input _ => ih input).remember id
    constructor
    · intro progress
      cases hknown : progress.signal? id with
      | some signal =>
        rw [visit_of_known nodes .off depth hknown]
        exact .refl progress.switches
      | none =>
        cases hat : nodes[id]? with
        | none =>
          rw [visit_of_missing nodes .off depth hknown hat]
          exact .refl progress.switches
        | some node =>
          rw [visit_of_node nodes .off depth hknown hat]
          exact (hnode node).grows progress
    · intro progress table htable
      have hsame : Progress.signal? { progress with switches := table } id = progress.signal? id :=
        rfl
      cases hknown : progress.signal? id with
      | some signal =>
        rw [visit_of_known nodes .off depth hknown,
          visit_of_known nodes .off depth (hsame.trans hknown)]
      | none =>
        cases hat : nodes[id]? with
        | none =>
          rw [visit_of_missing nodes .off depth hknown hat,
            visit_of_missing nodes .off depth (hsame.trans hknown) hat]
        | some node =>
          rw [visit_of_node nodes .off depth hknown hat] at htable ⊢
          rw [visit_of_node nodes .off depth (hsame.trans hknown) hat]
          exact (hnode node).again htable

/-- Visiting one node after the other is repeated as each of the visits is. -/
theorem visitAll_again (ids : List NodeId) (progress : Progress) :
    progress.switches.Grows (visitAll nodes .off ids progress).switches ∧
      ∀ table, (visitAll nodes .off ids progress).switches.Grows table →
        visitAll nodes .off ids { progress with switches := table } =
          { visitAll nodes .off ids progress with switches := table } := by
  induction ids generalizing progress with
  | nil => exact ⟨.refl progress.switches, fun _ _ => rfl⟩
  | cons first ids ih =>
    have hfirst := repeats_visit nodes (depthLimit nodes) first
    obtain ⟨hgrows, hagain⟩ := ih (visit nodes .off (depthLimit nodes) first progress).2
    refine ⟨(hfirst.grows progress).trans hgrows, fun table htable => ?_⟩
    have hvisit := hfirst.again (hgrows.trans htable)
    have hrest := hagain table htable
    rw [visitAll, List.foldl_cons, hvisit]
    exact hrest

/-- A run with the table that a run has left behind is the same run. -/
theorem run_again (switches : Switches) :
    run nodes .off (run nodes .off switches).switches = run nodes .off switches :=
  (visitAll_again nodes (order nodes) ⟨Array.replicate nodes.size none, switches⟩).2 _ (.refl _)

end

end Evaluation

/-! ### Diagrams -/

namespace Diagram

open Evaluation

variable {α : Type}

/-- Evaluating once more with the table that is left behind changes neither signals nor table. -/
theorem evaluate_again (diagram : Diagram α) (switches : Switches) :
    diagram.evaluate (diagram.evaluate switches).2 = diagram.evaluate switches := by
  have hrun := run_again diagram.nodes switches
  simp only [evaluate, hrun]

/-- Signals that have been written on a diagram whose nodes may have any names. -/
structure Written (diagram : Diagram α) (signals : NodeId → Signal) : Prop where
  /-- A node bears the signal of its place or none. -/
  node {id : NodeId} {node : Node α} : diagram.node? id = some node →
    node.signal = none ∨ node.signal = some (signals id)
  /-- It bears the signal if its place is the name of a node. -/
  named {id : NodeId} {node other : Node α} : diagram.node? id = some node →
    other ∈ diagram.nodes → other.id = id → node.signal = some (signals id)
  /-- A wire bears what the node bears that it comes from. -/
  wire {wire : Wire} : wire ∈ diagram.wires →
    wire.signal = (diagram.node? wire.source).bind (·.signal)

/-- A run works out the signal of every node that is named, and no wrong one. -/
theorem written_run {diagram : Diagram α} (h : diagram.Acyclic) (unset : Unset)
    (switches : Switches) :
    (diagram.withSignals (run diagram.nodes unset switches)).Written
      (diagram.plainSignal h (unset.reading switches)) := by
  have hsolves := solves_plainSignal h (unset.reading switches)
  have hsound := sound_run hsolves h.shallow
  have hnode {id : NodeId} {node : Node α}
      (hat : (diagram.withSignals (run diagram.nodes unset switches)).node? id = some node) :
      id < diagram.nodes.size ∧
        node.signal = (run diagram.nodes unset switches).signal? id := by
    rw [node?, getElem?_nodes_withSignals] at hat
    obtain ⟨before, hbefore, rfl⟩ := Option.map_eq_some_iff.1 hat
    exact ⟨(Array.getElem?_eq_some_iff.1 hbefore).1, rfl⟩
  refine ⟨fun hat => ?_, fun {id node other} hat hother hname => ?_, fun hwire => ?_⟩
  · rw [(hnode hat).2]
    cases hsignal : (run diagram.nodes unset switches).signal? _ with
    | none => exact .inl rfl
    | some signal => exact .inr (congrArg some (hsound.memo hsignal).symm)
  · have hmem : id ∈ order diagram.nodes := by
      rw [(order_perm diagram.nodes).mem_iff, List.mem_map]
      obtain ⟨place, hplace⟩ := Array.mem_iff_getElem?.1 hother
      rw [getElem?_nodes_withSignals] at hplace
      obtain ⟨before, hbefore, rfl⟩ := Option.map_eq_some_iff.1 hplace
      exact ⟨before, Array.mem_toList_iff.2 (Array.mem_of_getElem? hbefore), hname⟩
    obtain ⟨signal, hsignal⟩ := Option.isSome_iff_exists.1 <|
      (sound_visitAll hsolves h.shallow (order diagram.nodes)
        (sound_start diagram.nodes unset switches _)).2.2 id hmem (hnode hat).1
    have hrun : (run diagram.nodes unset switches).signal? id = some signal := hsignal
    rw [(hnode hat).2, hrun, hsound.memo hrun]
  · obtain ⟨before, -, rfl⟩ := Array.mem_map.1 hwire
    rw [signal_node?_withSignals]
    cases hat : diagram.node? before.source with
    | none => exact hsound.signal?_of_size_le (Array.getElem?_eq_none_iff.1 hat)
    | some node => rfl

/-- **An evaluation writes signals only, and all of them**, on every diagram without cycles,
whatever names and levels the nodes have and wherever the wires run. It changes nothing but the
signals of nodes and wires. Neither the diagram it gives nor the table it leaves depends on the
signals that were there before: a node that no name leads to has none afterwards, or the right one
like every other node. A second evaluation with the table that is left changes nothing at all. -/
theorem evaluate_overwrites (diagram : Diagram α) (hacyclic : diagram.Acyclic)
    (switches : Switches) :
    (diagram.evaluate switches).1.silent = diagram.silent ∧
    (diagram.evaluatePartial switches).silent = diagram.silent ∧
    (∀ other : Diagram α, other.silent = diagram.silent →
      other.evaluate switches = diagram.evaluate switches ∧
        other.evaluatePartial switches = diagram.evaluatePartial switches) ∧
    (diagram.evaluate switches).1.evaluate (diagram.evaluate switches).2 =
      diagram.evaluate switches ∧
    (diagram.evaluate switches).1.Written
      (diagram.plainSignal hacyclic fun name => .ofBool (switches.getD name)) ∧
    (diagram.evaluatePartial switches).Written
      (diagram.plainSignal hacyclic fun name => (switches.get? name).elim .unknown .ofBool) := by
  refine ⟨silent_withSignals .., silent_withSignals .., fun other h => ⟨?_, ?_⟩, ?_,
    written_run hacyclic .off switches, written_run hacyclic .unknown switches⟩
  · exact evaluate_eq_of_silent_eq h switches
  · exact evaluatePartial_eq_of_silent_eq h switches
  · rw [evaluate_evaluate, evaluate_again]

/-- A diagram on which old signals stand. Both nodes have the name of the first one, so the second
one is never visited. -/
def misnamed : Diagram Rat where
  nodes := #[⟨0, .var 'A', "A", 3, 1, ⟨0, 0, 0, 0⟩, some .low⟩,
    ⟨0, .not 0, "not", 1, 1, ⟨0, 0, 0, 0⟩, some .high⟩]
  wires := #[⟨0, 1, 0, 1, some .unknown⟩, ⟨1, 0, 0, 1, some .high⟩, ⟨7, 0, 0, 1, some .low⟩]
  width := 0
  height := 0
  root := 1
  origin := .ofWires (.var 'A') 0 []

/-- With `A` on, the first node and its wire get a new signal, and the old ones of the second node
and its wire are gone. -/
theorem evaluate_overwrites_misnamed :
    let switches := Switches.ofList [('a', true)]
    let after := (misnamed.evaluate switches).1
    misnamed.Acyclic ∧ after.nodes.map (·.signal) = #[some .high, none] ∧
      after.wires.map (·.signal) = #[some .high, none, none] ∧
      after.silent = misnamed.silent ∧
      after.evaluate (misnamed.evaluate switches).2 = misnamed.evaluate switches := by
  intro switches after
  have hacyclic : misnamed.Acyclic := by
    have hranks : ∀ id < 2, ∀ input ∈ (misnamed.node? id).elim [] (·.operation.inputs),
        input < id := by decide
    refine acyclic_of_rank id fun id input hreads => ?_
    obtain ⟨node, hnode, hinput⟩ := hreads
    have hid : id < 2 := (Array.getElem?_eq_some_iff.1 hnode).1
    exact hranks id hid input (by rwa [hnode])
  obtain ⟨hsilent, -, -, hagain, -, -⟩ := evaluate_overwrites misnamed hacyclic switches
  exact ⟨hacyclic, by decide +kernel, by decide +kernel, hsilent, hagain⟩

end Diagram

end Schematic
