import Schematic.Proofs.Evaluation.Recursion

/-!
# More values, more signals

Giving a value to a switch that had none changes no signal that was known before: a gate that was
decided stays decided, whichever of its operands were unknown. So what a partial evaluation knows,
one with more values knows too, and so does a full evaluation (`Diagram.evaluatePartial_monotone`).
Signals are compared in the flat order, in which the unknown one is below all others
(`Signal.Below`).
-/

namespace Schematic

/-! ### The flat order -/

namespace Signal

/-- Nothing known of the first signal is lost in the second one: it is unknown, or they are
equal. -/
def Below (a b : Signal) : Prop := a = unknown ∨ a = b

variable {a b : Signal}

@[simp] theorem Below.refl (a : Signal) : a.Below a := .inr rfl

theorem Below.trans {c : Signal} (h : a.Below b) (h' : b.Below c) : a.Below c := by
  rcases h with rfl | rfl
  · exact .inl rfl
  · exact h'

theorem Below.eq_of_isKnown (h : a.Below b) (hknown : a.isKnown) : b = a := by
  rcases h with rfl | rfl
  · cases hknown
  · rfl

theorem Below.invert (h : a.Below b) : a.invert.Below b.invert := by
  rcases h with rfl | rfl
  · exact .inl rfl
  · exact .refl _

/-- A gate that is decided by some signals is decided alike by signals that lose nothing of them. -/
theorem below_combine {β : Type} {dominant : Signal} (hdominant : dominant ≠ unknown)
    {items : List β} {signals signals' : β → Signal}
    (h : ∀ item ∈ items, (signals item).Below (signals' item)) :
    (combine dominant (items.map signals)).Below (combine dominant (items.map signals')) := by
  by_cases hdecided : dominant ∈ items.map signals
  · obtain ⟨item, hitem, rfl⟩ := List.mem_map.1 hdecided
    have hsame : signals' item = signals item := (h item hitem).eq_of_isKnown (by simpa [isKnown])
    have hdecided' : signals item ∈ items.map signals' :=
      List.mem_map.2 ⟨item, hitem, hsame⟩
    rw [combine, combine, if_pos hdecided, if_pos hdecided']
    exact .refl _
  · by_cases hunknown : unknown ∈ items.map signals
    · rw [combine, if_neg hdecided, if_pos hunknown]
      exact .inl rfl
    · -- All operands are known, so they are the same.
      have hsame : items.map signals = items.map signals' := by
        refine List.map_congr_left fun item hitem => ((h item hitem).resolve_left fun heq => ?_)
        exact hunknown (List.mem_map.2 ⟨item, hitem, heq⟩)
      rw [hsame]
      exact .refl _

end Signal

theorem Operation.below_signal {read read' : Char → Signal} {signals signals' : NodeId → Signal}
    {operation : Operation} (hread : ∀ name, (read name).Below (read' name))
    (h : ∀ input ∈ operation.inputs, (signals input).Below (signals' input)) :
    (operation.signal read signals).Below (operation.signal read' signals') := by
  cases operation with
  | var name => exact hread name
  | not input => exact (h input List.mem_cons_self).invert
  | and inputs => exact Signal.below_combine (by decide) h
  | or inputs => exact Signal.below_combine (by decide) h

namespace Evaluation

variable {α : Type} {nodes : Array (Node α)} {read read' : Char → Signal}
  {signals signals' : NodeId → Signal}

/-- Reading more of the variables loses nothing at any node. -/
theorem Solves.below (h : Solves nodes read signals) (h' : Solves nodes read' signals')
    (hread : ∀ name, (read name).Below (read' name)) {depth : Nat} {id : NodeId}
    (hshallow : Shallow nodes depth id) : (signals id).Below (signals' id) := by
  induction depth generalizing id with
  | zero => exact hshallow.elim
  | succ depth ih =>
    cases hnode : nodes[id]? with
    | none => exact .inl (h.missing hnode)
    | some node =>
      rw [h.node hnode, h'.node hnode]
      exact Operation.below_signal hread fun input hinput => ih (hshallow node hnode input hinput)

/-- A solution goes by the variables that are read, and by no other ones. -/
theorem Solves.congr (h : Solves nodes read signals)
    (hread : ∀ name, Reads nodes name → read name = read' name) : Solves nodes read' signals := by
  refine ⟨h.missing, fun {id node} hnode => ?_⟩
  rw [h.node hnode]
  cases hoperation : node.operation with
  | var name => exact hread name ⟨id, node, name, hnode, hoperation, rfl⟩
  | not _ | and _ | or _ => rfl

/-! ### Tables with more values -/

variable {fewer more : Switches}

theorem reading_unknown_below (h : fewer.entries ⊆ more.entries) (name : Char) :
    (Unset.unknown.reading fewer name).Below (Unset.unknown.reading more name) := by
  cases hvalue : fewer.get? name with
  | none => exact .inl (by rw [Unset.reading, hvalue, Option.elim_none])
  | some value =>
    have hmore : more.get? name = some value := by
      have hfolded := Text.toUpper_toUpper name
      have hentry : (name.toUpper, value) ∈ fewer.entries :=
        Switches.mem_entries_iff.2 ⟨hfolded, (fewer.get?_congr hfolded).trans hvalue⟩
      exact (more.get?_congr hfolded).symm.trans (Switches.mem_entries_iff.1 (h hentry)).2
    rw [Unset.reading, Unset.reading, hvalue, hmore]
    exact .refl _

theorem reading_unknown_below_off (switches : Switches) (name : Char) :
    (Unset.unknown.reading switches name).Below (Unset.off.reading switches name) := by
  rw [Unset.reading, Unset.reading, Switches.getD]
  cases switches.get? name with
  | none => exact .inl rfl
  | some value => exact .refl _

end Evaluation

/-! ### Diagrams -/

namespace Diagram

open Evaluation

variable {α : Type}

/-- What is known on a diagram is known on another one, which differs from it in signals only. -/
structure KnownOn (diagram other : Diagram α) : Prop where
  /-- Without signals the diagrams are the same. -/
  silent : other.silent = diagram.silent
  /-- The signal of a node, if it is known, is the same on the other diagram. -/
  node {id : NodeId} {signal : Signal} : signal.isKnown →
    (diagram.node? id).bind (·.signal) = some signal →
      (other.node? id).bind (·.signal) = some signal
  /-- So is that of a wire. -/
  wire {place : Nat} {signal : Signal} : signal.isKnown →
    diagram.wires[place]?.bind (·.signal) = some signal →
      other.wires[place]?.bind (·.signal) = some signal
  /-- And so is what the diagram puts out. -/
  output : diagram.output.isKnown → other.output = diagram.output

section

variable {diagram : Diagram α} {progress progress' : Progress}

theorem signal_node?_withSignals (id : NodeId) :
    ((diagram.withSignals progress).node? id).bind (·.signal) =
      (diagram.node? id).bind fun _ => progress.signal? id := by
  rw [node?, getElem?_nodes_withSignals, node?]
  cases diagram.nodes[id]? <;> rfl

theorem signal_wires_withSignals (place : Nat) :
    (diagram.withSignals progress).wires[place]?.bind (·.signal) =
      diagram.wires[place]?.bind fun wire => progress.signal? wire.source := by
  rw [withSignals, Array.getElem?_map]
  cases diagram.wires[place]? <;> rfl

/-- A diagram on which more has been worked out keeps what was known. -/
theorem knownOn_withSignals
    (h : ∀ id signal, signal.isKnown → progress.signal? id = some signal →
      progress'.signal? id = some signal) :
    (diagram.withSignals progress).KnownOn (diagram.withSignals progress') := by
  have hnode : ∀ {id : NodeId} {signal : Signal}, signal.isKnown →
      ((diagram.withSignals progress).node? id).bind (·.signal) = some signal →
        ((diagram.withSignals progress').node? id).bind (·.signal) = some signal := by
    intro id signal hknown hsignal
    rw [signal_node?_withSignals, Option.bind_eq_some_iff] at hsignal ⊢
    obtain ⟨node, hnode, hsignal⟩ := hsignal
    exact ⟨node, hnode, h id signal hknown hsignal⟩
  refine ⟨by simp, hnode, fun {place signal} hknown hsignal => ?_, fun hknown => ?_⟩
  · rw [signal_wires_withSignals, Option.bind_eq_some_iff] at hsignal ⊢
    obtain ⟨wire, hwire, hsignal⟩ := hsignal
    exact ⟨wire, hwire, h wire.source signal hknown hsignal⟩
  · -- What is put out is the signal of the root, and it is known only if there is one.
    cases houtput : (diagram.withSignals progress).output? with
    | none =>
      rw [output, houtput] at hknown
      cases hknown
    | some signal =>
      have hshown : (diagram.withSignals progress).output = signal := by
        rw [output, houtput, Option.getD_some]
      rw [hshown] at hknown ⊢
      have houtput' : (diagram.withSignals progress').output? = some signal :=
        hnode hknown houtput
      rw [output, houtput', Option.getD_some]

end

section

variable {diagram : Diagram α} (hnumbered : diagram.Numbered) (hacyclic : diagram.Acyclic)

include hnumbered hacyclic

/-- A run that reads more of the variables keeps what was known. -/
theorem knownOn_run {unset unset' : Unset} {switches switches' : Switches}
    (hread : ∀ name, (unset.reading switches name).Below (unset'.reading switches' name)) :
    (diagram.withSignals (run diagram.nodes unset switches)).KnownOn
      (diagram.withSignals (run diagram.nodes unset' switches')) := by
  refine knownOn_withSignals fun id signal hknown hsignal => ?_
  rw [signal?_run_of_acyclic hnumbered hacyclic] at hsignal ⊢
  split at hsignal
  · next hid =>
    have hbelow := (solves_plainSignal hacyclic _).below (solves_plainSignal hacyclic _) hread
      (hacyclic.shallow id)
    obtain rfl := Option.some.inj hsignal
    rw [if_pos hid, hbelow.eq_of_isKnown hknown]
  · cases hsignal

/-- A full evaluation is the partial one with the table that it leaves behind. -/
theorem evaluate_eq_evaluatePartial (switches : Switches) :
    (diagram.evaluate switches).1 = diagram.evaluatePartial (diagram.evaluate switches).2 := by
  have hsolves := solves_plainSignal hacyclic (Unset.off.reading switches)
  refine withSignals_congr diagram fun id => ?_
  have hread : ∀ name, Reads diagram.nodes name → Unset.off.reading switches name =
      Unset.unknown.reading (diagram.evaluate switches).2 name := by
    intro name hreads
    have hvalue : (diagram.evaluate switches).2.get? name = some (switches.getD name) :=
      get?_run_of_reads hsolves hacyclic.shallow hnumbered hreads
    rw [Unset.reading, Unset.reading, hvalue, Option.elim_some]
  rw [signal?_run hsolves hacyclic.shallow hnumbered,
    signal?_run (hsolves.congr hread) hacyclic.shallow hnumbered]

end

/-- **A partial evaluation is monotone** on every diagram without cycles whose nodes carry the
numbers of their places: where a table has all entries of another one, what is known of the diagram
with the smaller table is known with the larger one, and known in a full evaluation with it. A full
evaluation gives the signals of the partial one with the table that it leaves behind. -/
theorem evaluatePartial_monotone (diagram : Diagram α) (hnumbered : diagram.Numbered)
    (hacyclic : diagram.Acyclic) (fewer more : Switches) (h : fewer.entries ⊆ more.entries) :
    (diagram.evaluatePartial fewer).KnownOn (diagram.evaluatePartial more) ∧
      (diagram.evaluatePartial fewer).KnownOn (diagram.evaluate more).1 ∧
      ∀ switches, (diagram.evaluate switches).1 =
        diagram.evaluatePartial (diagram.evaluate switches).2 := by
  refine ⟨knownOn_run hnumbered hacyclic (reading_unknown_below h), ?_,
    evaluate_eq_evaluatePartial hnumbered hacyclic⟩
  exact knownOn_run hnumbered hacyclic fun name =>
    (reading_unknown_below h name).trans (reading_unknown_below_off more name)

/-- A diagram in which two gates read `A`, one of them behind `B`. The levels are of no help. -/
def forked : Diagram Rat where
  nodes := #[.or [1, 2], .and [4, 3], .not 3, .var 'A', .var 'B'].mapIdx fun id operation =>
    ⟨id, operation, operation.label, 0, 1, ⟨0, 0, 0, 0⟩, none⟩
  wires := #[⟨4, 1, 0, 2, none⟩, ⟨3, 1, 1, 2, none⟩, ⟨2, 0, 1, 2, none⟩]
  width := 0
  height := 0
  root := 0
  origin := .ofWires (.var 'A') 1 []

/-- Where `A` is off, both gates are decided, though `B` is unknown; giving `B` a value changes
neither. -/
theorem evaluatePartial_monotone_forked :
    let fewer := Switches.ofList [('a', false)]
    let more := Switches.ofList [('B', true), ('A', false)]
    forked.Numbered ∧ forked.Acyclic ∧ fewer.entries ⊆ more.entries ∧
      (forked.evaluatePartial fewer).output = .high ∧ (forked.evaluatePartial more).output = .high ∧
      (forked.evaluatePartial fewer).KnownOn (forked.evaluate more).1 := by
  intro fewer more
  have hnumbered : forked.Numbered := by
    intro id node hnode
    obtain ⟨operation, -, rfl⟩ := Option.map_eq_some_iff.1 (Array.getElem?_mapIdx.symm.trans hnode)
    rfl
  have hacyclic : forked.Acyclic := by
    have hbehind : ∀ id < 5, ∀ input ∈ (forked.node? id).elim [] (·.operation.inputs),
        5 - input < 5 - id := by decide
    refine acyclic_of_rank (5 - ·) fun id input hreads => ?_
    obtain ⟨node, hnode, hinput⟩ := hreads
    have hid : id < 5 := (Array.getElem?_eq_some_iff.1 hnode).1
    exact hbehind id hid input (by rwa [hnode])
  have hentries : fewer.entries ⊆ more.entries := by decide +kernel
  have houtput : (forked.evaluatePartial fewer).output = .high := by decide +kernel
  obtain ⟨hpartial, hfull, -⟩ :=
    evaluatePartial_monotone forked hnumbered hacyclic fewer more hentries
  exact ⟨hnumbered, hacyclic, hentries, houtput,
    (hpartial.output (by rw [houtput]; rfl)).trans houtput, hfull⟩

end Diagram

end Schematic
