import Schematic.Proofs.Diagram.Validity
import Schematic.Proofs.Evaluation.Acyclic
import Schematic.Proofs.Evaluation.Frame

/-!
# Evaluating diagrams without cycles

An evaluation remembers signals, works out operands on the spot, leaves operands of a decided gate
unread and changes the table on its way. On a diagram without cycles none of it shows: every node
gets the signal of a plain recursion (`Diagram.plainSignal`), and the table has settled what the
nodes read. The levels only say in which order the nodes are visited, so other levels change nothing
but themselves (`Diagram.evaluate_relevel`). All of it is put together in
`Diagram.evaluate_follows_recursion`.
-/

namespace Schematic.Diagram

open Evaluation

variable {α : Type}

/-! ### Plain recursion -/

/-- The signal of a node worked out by recursion alone: every operand is read, nothing is
remembered, and levels do not come in. -/
def plainSignal (diagram : Diagram α) (h : diagram.Acyclic) (read : Char → Signal) (id : NodeId) :
    Signal :=
  match _hnode : diagram.node? id with
  | none => .unknown
  | some node =>
    match _hoperation : node.operation with
    | .var name => read name
    | .not input => (plainSignal diagram h read input).invert
    | .and inputs =>
      .combine .low (inputs.attach.map fun ⟨input, _⟩ => plainSignal diagram h read input)
    | .or inputs =>
      .combine .high (inputs.attach.map fun ⟨input, _⟩ => plainSignal diagram h read input)
termination_by h.wellFounded.wrap id
decreasing_by
  all_goals
    refine ⟨node, _hnode, ?_⟩
    rw [_hoperation]
  · exact List.mem_cons_self
  · assumption
  · assumption

section

variable {diagram : Diagram α} (h : diagram.Acyclic) (read : Char → Signal) {id : NodeId}

theorem plainSignal_of_missing (hnode : diagram.node? id = none) :
    diagram.plainSignal h read id = .unknown := by
  rw [plainSignal]
  split
  · rfl
  · next hsome => cases hnode.symm.trans hsome

theorem plainSignal_of_node {node : Node α} (hnode : diagram.node? id = some node) :
    diagram.plainSignal h read id = node.operation.signal read (diagram.plainSignal h read) := by
  rw [plainSignal]
  split
  · next hnone => cases hnode.symm.trans hnone
  · next hsome =>
    obtain rfl := Option.some.inj (hnode.symm.trans hsome)
    split <;> simp [Operation.signal, *]

/-- The signals of the recursion solve the diagram. -/
theorem solves_plainSignal :
    Solves diagram.nodes read (diagram.plainSignal h read) :=
  ⟨plainSignal_of_missing h read, plainSignal_of_node h read⟩

end

/-! ### Other levels -/

/-- The diagram with other levels. -/
def relevel (diagram : Diagram α) (levels : NodeId → Nat) : Diagram α :=
  { diagram with nodes := diagram.nodes.mapIdx fun id node => { node with level := levels id } }

section

variable {diagram : Diagram α} (levels : NodeId → Nat)

theorem getElem?_nodes_relevel (id : NodeId) :
    (diagram.relevel levels).nodes[id]? =
      diagram.nodes[id]?.map ({ · with level := levels id }) :=
  Array.getElem?_mapIdx

theorem hasInput_relevel : (diagram.relevel levels).HasInput = diagram.HasInput := by
  funext id input
  simp [HasInput, node?, getElem?_nodes_relevel]

theorem reads_relevel_iff {name : Char} :
    Reads (diagram.relevel levels).nodes name ↔ Reads diagram.nodes name := by
  simp [Reads, getElem?_nodes_relevel]

theorem Acyclic.relevel (h : diagram.Acyclic) : (diagram.relevel levels).Acyclic := by
  rw [Acyclic, hasInput_relevel]
  exact h

theorem Numbered.relevel (h : diagram.Numbered) : (diagram.relevel levels).Numbered := by
  intro id node hnode
  rw [getElem?_nodes_relevel] at hnode
  obtain ⟨old, hold, rfl⟩ := Option.map_eq_some_iff.1 hnode
  exact h id old hold

theorem solves_relevel {read : Char → Signal} {signals : NodeId → Signal}
    (h : Solves diagram.nodes read signals) :
    Solves (diagram.relevel levels).nodes read signals := by
  constructor
  · intro id hnode
    rw [getElem?_nodes_relevel, Option.map_eq_none_iff] at hnode
    exact h.missing hnode
  · intro id node hnode
    rw [getElem?_nodes_relevel] at hnode
    obtain ⟨old, hold, rfl⟩ := Option.map_eq_some_iff.1 hnode
    have hsignal := h.node hold
    exact hsignal

theorem withSignals_relevel (progress : Progress) :
    (diagram.relevel levels).withSignals progress =
      (diagram.withSignals progress).relevel levels := by
  simp only [withSignals, relevel, Array.mapIdx_mapIdx]
  rfl

end

/-! ### Runs -/

section

variable {diagram : Diagram α} (hnumbered : diagram.Numbered) (hacyclic : diagram.Acyclic)
  (unset : Unset) (switches : Switches)

include hnumbered hacyclic

/-- A run works out the signals of the recursion. -/
theorem signal?_run_of_acyclic (id : NodeId) :
    (run diagram.nodes unset switches).signal? id =
      if id < diagram.nodes.size then
        some (diagram.plainSignal hacyclic (unset.reading switches) id)
      else none :=
  signal?_run (solves_plainSignal hacyclic _) hacyclic.shallow hnumbered id

/-- A run with other levels works out the same signals and leaves the same table. -/
theorem run_relevel (levels : NodeId → Nat) :
    (∀ id, (run (diagram.relevel levels).nodes unset switches).signal? id =
        (run diagram.nodes unset switches).signal? id) ∧
      (run (diagram.relevel levels).nodes unset switches).switches =
        (run diagram.nodes unset switches).switches := by
  have hsolves := solves_plainSignal hacyclic (unset.reading switches)
  have hsolves' := solves_relevel levels hsolves
  have hshallow' := (hacyclic.relevel levels).shallow
  have hnumbered' := hnumbered.relevel levels
  constructor
  · intro id
    rw [signal?_run hsolves' hshallow' hnumbered', signal?_run hsolves hacyclic.shallow hnumbered]
    simp only [relevel, Array.size_mapIdx]
  · cases unset with
    | unknown =>
      rw [(sound_run hsolves hacyclic.shallow).switches_eq,
        (sound_run hsolves' hshallow').switches_eq]
    | off =>
      apply Switches.ext_get?
      intro name
      by_cases hreads : Reads diagram.nodes name
      · rw [get?_run_of_reads hsolves hacyclic.shallow hnumbered hreads,
          get?_run_of_reads hsolves' hshallow' hnumbered' ((reads_relevel_iff levels).2 hreads)]
      · rw [get?_run_of_not_reads hsolves hacyclic.shallow hreads,
          get?_run_of_not_reads hsolves' hshallow' (hreads ∘ (reads_relevel_iff levels).1)]

theorem evaluatePartial_relevel (levels : NodeId → Nat) :
    (diagram.relevel levels).evaluatePartial switches =
      (diagram.evaluatePartial switches).relevel levels := by
  have hrun := run_relevel hnumbered hacyclic .unknown switches levels
  rw [evaluatePartial, withSignals_congr _ hrun.1, withSignals_relevel, evaluatePartial]

/-- Other levels change nothing but the levels, though the nodes are visited in another order. -/
theorem evaluate_relevel (levels : NodeId → Nat) :
    (diagram.relevel levels).evaluate switches =
      ((diagram.evaluate switches).1.relevel levels, (diagram.evaluate switches).2) := by
  have hrun := run_relevel hnumbered hacyclic .off switches levels
  simp only [evaluate, hrun.2, withSignals_congr _ hrun.1, withSignals_relevel]

end

/-! ### Signals on a diagram -/

/-- A diagram that has been given signals: its nodes bear them, and nothing else has changed. -/
structure Bears (diagram before : Diagram α) (signals : NodeId → Signal) : Prop where
  /-- Without the signals it is the diagram before. -/
  silent : diagram.silent = before.silent
  /-- A node bears the signal of its place. -/
  node {id : NodeId} {node : Node α} : diagram.node? id = some node →
    node.signal = some (signals id)
  /-- A wire bears the signal of the node it comes from, and none if there is no such node. -/
  wire {wire : Wire} : wire ∈ diagram.wires →
    wire.signal = (diagram.node? wire.source).bind (·.signal)
  /-- The diagram puts out the signal of its root. -/
  output : diagram.output = signals diagram.root

theorem bears_withSignals {diagram : Diagram α} {progress : Progress} {read : Char → Signal}
    {signals : NodeId → Signal} (hsolves : Solves diagram.nodes read signals)
    (h : ∀ id, progress.signal? id =
      if id < diagram.nodes.size then some (signals id) else none) :
    (diagram.withSignals progress).Bears diagram signals := by
  have hsignal : ∀ id, ((diagram.withSignals progress).node? id).bind (·.signal) =
      progress.signal? id := by
    intro id
    rw [node?, getElem?_nodes_withSignals]
    by_cases hid : id < diagram.nodes.size
    · rw [Array.getElem?_eq_getElem hid, Option.map_some, Option.bind_some]
    · rw [Array.getElem?_eq_none (Nat.not_lt.1 hid), h, if_neg hid]
      rfl
  refine ⟨silent_withSignals .., fun {id node} hnode => ?_, fun hwire => ?_, ?_⟩
  · have hid : id < diagram.nodes.size := by
      simpa [withSignals] using (Array.getElem?_eq_some_iff.1 hnode).1
    have hbears := hsignal id
    rwa [hnode, Option.bind_some, h, if_pos hid] at hbears
  · obtain ⟨before, -, rfl⟩ := Array.mem_map.1 hwire
    exact (hsignal before.source).symm
  · rw [output, output?, rootNode?, hsignal, h]
    split
    · rfl
    · next hroot =>
      exact (hsolves.missing (Array.getElem?_eq_none (Nat.not_lt.1 hroot))).symm

/-- **An evaluation follows the plain recursion** on every diagram without cycles whose nodes carry
the numbers of their places: every node gets the signal of the recursion, where variables without a
value are unknown or off, and every wire that of the node it comes from. The table settles the
variables of the nodes and nothing else. Other levels change neither a signal nor the table. -/
theorem evaluate_follows_recursion (diagram : Diagram α) (hnumbered : diagram.Numbered)
    (hacyclic : diagram.Acyclic) (switches : Switches) :
    (diagram.evaluatePartial switches).Bears diagram
        (diagram.plainSignal hacyclic fun name => (switches.get? name).elim .unknown .ofBool) ∧
      (diagram.evaluate switches).1.Bears diagram
        (diagram.plainSignal hacyclic fun name => .ofBool (switches.getD name)) ∧
      (∀ name, (Reads diagram.nodes name →
          (diagram.evaluate switches).2.get? name = some (switches.getD name)) ∧
        (¬ Reads diagram.nodes name →
          (diagram.evaluate switches).2.get? name = switches.get? name)) ∧
      ∀ levels, (diagram.relevel levels).evaluatePartial switches =
          (diagram.evaluatePartial switches).relevel levels ∧
        (diagram.relevel levels).evaluate switches =
          ((diagram.evaluate switches).1.relevel levels, (diagram.evaluate switches).2) := by
  have hbears : ∀ unset : Unset,
      (diagram.withSignals (run diagram.nodes unset switches)).Bears diagram
        (diagram.plainSignal hacyclic (unset.reading switches)) := by
    intro unset
    exact bears_withSignals (solves_plainSignal hacyclic _)
      (signal?_run_of_acyclic hnumbered hacyclic unset switches)
  have hsolves := solves_plainSignal hacyclic (Unset.off.reading switches)
  refine ⟨hbears .unknown, hbears .off, fun name => ⟨?_, ?_⟩, fun levels => ⟨?_, ?_⟩⟩
  · exact get?_run_of_reads hsolves hacyclic.shallow hnumbered
  · exact get?_run_of_not_reads hsolves hacyclic.shallow
  · exact evaluatePartial_relevel hnumbered hacyclic switches levels
  · exact evaluate_relevel hnumbered hacyclic switches levels

/-- A diagram that no formula is laid out as: the negation is read twice by one gate and once more
by another, a node that is read does not exist, and the levels fall along the wires. -/
def tangled : Diagram Rat where
  nodes := #[.var 'a', .not 0, .and [1, 1, 9], .or [1, 2]].mapIdx fun id operation =>
    ⟨id, operation, operation.label, 3 - id, 1, ⟨0, 0, 0, 0⟩, none⟩
  wires := #[⟨1, 3, 0, 2, none⟩, ⟨9, 2, 2, 3, none⟩]
  width := 0
  height := 0
  root := 3
  origin := .ofWires (.var 'A') 1 []

/-- With its switch off, the missing operand leaves the conjunction of the tangled diagram unknown,
and the output is decided by the negation. -/
theorem evaluate_follows_recursion_tangled :
    tangled.Numbered ∧ tangled.Acyclic ∧
      (tangled.evaluate ∅).1.output = .high ∧
      ((tangled.evaluate ∅).1.node? 2).bind (·.signal) = some .unknown ∧
      (tangled.evaluate ∅).2.get? 'A' = some false ∧
      (tangled.relevel id).evaluate ∅ =
        ((tangled.evaluate ∅).1.relevel id, (tangled.evaluate ∅).2) := by
  have hnumbered : tangled.Numbered := by
    intro id node hnode
    obtain ⟨operation, -, rfl⟩ := Option.map_eq_some_iff.1 (Array.getElem?_mapIdx.symm.trans hnode)
    rfl
  have hacyclic : tangled.Acyclic := by
    have hranks : ∀ id < 4, ∀ input ∈ (tangled.node? id).elim [] (·.operation.inputs),
        (if input < 4 then input + 1 else 0) < id + 1 := by decide
    refine acyclic_of_rank (fun id => if id < 4 then id + 1 else 0) fun id input hreads => ?_
    obtain ⟨node, hnode, hinput⟩ := hreads
    have hid : id < 4 := (Array.getElem?_eq_some_iff.1 hnode).1
    rw [if_pos hid]
    exact hranks id hid input (by rwa [hnode])
  obtain ⟨-, hbears, htable, hlevels⟩ := evaluate_follows_recursion tangled hnumbered hacyclic ∅
  have hsolves := solves_plainSignal hacyclic fun name => .ofBool (Switches.getD ∅ name)
  generalize tangled.plainSignal hacyclic _ = signals at hbears hsolves
  have hvar : signals 0 = .low := (hsolves.node rfl).trans rfl
  have hnot : signals 1 = (signals 0).invert := (hsolves.node rfl).trans rfl
  have hmissing : signals 9 = .unknown := hsolves.missing rfl
  have hand : signals 2 = .combine .low [signals 1, signals 1, signals 9] :=
    (hsolves.node rfl).trans rfl
  have hor : signals 3 = .combine .high [signals 1, signals 2] := (hsolves.node rfl).trans rfl
  rw [hnot, hmissing, hvar] at hand
  rw [hnot, hand, hvar] at hor
  refine ⟨hnumbered, hacyclic, hbears.output.trans hor, ?_, (htable 'A').1 ?_, (hlevels id).2⟩
  · exact (hbears.node rfl).trans (congrArg some hand)
  · exact ⟨0, _, 'a', rfl, rfl, rfl⟩

end Schematic.Diagram
