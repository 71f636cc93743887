import Schematic.Proofs.Evaluation.Progress
import Schematic.Proofs.Levels

/-!
# What a visit works out

A visit that may go deep enough works out the right signal, whatever is known already, and keeps
progress sound (`gives_visit`). The depth limit suffices where no chain of operands is longer than
it; then every node of the order has its signal after the run (`signal?_run`), and the table has
settled the switches of exactly the diagram's variables (`get?_run_of_reads`,
`get?_run_of_not_reads`).
-/

namespace Schematic.Evaluation

variable {α : Type}

/-! ### Nodes -/

/-- No chain of operands from a node on has more nodes than `depth`, one that does not exist
included. -/
def Shallow (nodes : Array (Node α)) : (depth : Nat) → NodeId → Prop
  | 0, _ => False
  | depth + 1, id =>
    ∀ node, nodes[id]? = some node → ∀ input ∈ node.operation.inputs, Shallow nodes depth input

/-- The order names every node. -/
theorem order_perm (nodes : Array (Node α)) :
    (order nodes).Perm (nodes.toList.map (·.id)) := by
  refine (Levels.flatMap_group_perm _).trans (.of_eq ?_)
  rw [List.map_map]
  rfl

/-- Works out the signal of an operation, whose operands are worked out by `visit`. -/
def work (visit : NodeId → Progress → Signal × Progress) (unset : Unset) (progress : Progress) :
    Operation → Signal × Progress
  | .var name => progress.read unset name
  | .not input => ((visit input progress).1.invert, (visit input progress).2)
  | .and inputs => gather visit .low false inputs progress
  | .or inputs => gather visit .high false inputs progress

section

variable (nodes : Array (Node α)) (unset : Unset) (depth : Nat) {id : NodeId} {progress : Progress}

theorem visit_of_known {signal : Signal} (h : progress.signal? id = some signal) :
    visit nodes unset (depth + 1) id progress = (signal, progress) := by
  rw [visit, h]

theorem visit_of_missing (h : progress.signal? id = none) (hnone : nodes[id]? = none) :
    visit nodes unset (depth + 1) id progress = (.unknown, progress) := by
  rw [visit, h, hnone]

theorem visit_of_node {node : Node α} (h : progress.signal? id = none)
    (hnode : nodes[id]? = some node) :
    visit nodes unset (depth + 1) id progress =
      ((work (visit nodes unset depth) unset progress node.operation).1,
        (work (visit nodes unset depth) unset progress node.operation).2.remember id
          (work (visit nodes unset depth) unset progress node.operation).1) := by
  simp only [visit, h, hnode]
  generalize node.operation = operation
  cases operation <;> rfl

end

/-! ### Acts -/

section

variable (nodes : Array (Node α)) (unset : Unset) (switches : Switches) (signals : NodeId → Signal)

/-- A signal and the progress after it, as they should be. -/
structure Outcome (before : Progress) (signal : Signal) (result : Signal × Progress) : Prop where
  /-- The signal is the right one. -/
  fst : result.1 = signal
  /-- Progress is sound. -/
  sound : Sound nodes unset switches signals result.2
  /-- No signal is forgotten. -/
  keeps {id : NodeId} : (before.signal? id).isSome → (result.2.signal? id).isSome

/-- An act that gives a signal, whatever is known already. -/
def Gives (act : Progress → Signal × Progress) (signal : Signal) : Prop :=
  ∀ progress, Sound nodes unset switches signals progress →
    Outcome nodes unset switches signals progress signal (act progress)

end

section

variable {nodes : Array (Node α)} {unset : Unset} {switches : Switches}
  {signals : NodeId → Signal} {act act' : Progress → Signal × Progress} {signal signal' : Signal}

theorem gives_known (signal : Signal) :
    Gives nodes unset switches signals (fun progress => (signal, progress)) signal :=
  fun _ hsound => ⟨rfl, hsound, id⟩

theorem Gives.of_eq
    (heq : ∀ progress, Sound nodes unset switches signals progress → act progress = act' progress)
    (h : Gives nodes unset switches signals act' signal) :
    Gives nodes unset switches signals act signal := by
  intro progress hsound
  rw [heq progress hsound]
  exact h progress hsound

theorem Gives.map (f : Signal → Signal) (h : Gives nodes unset switches signals act signal) :
    Gives nodes unset switches signals
      (fun progress => (f (act progress).1, (act progress).2)) (f signal) := by
  intro progress hsound
  obtain ⟨hfst, hafter, hkeeps⟩ := h progress hsound
  exact ⟨congrArg f hfst, hafter, hkeeps⟩

theorem Gives.after (h : Gives nodes unset switches signals act signal)
    (h' : Gives nodes unset switches signals act' signal') :
    Gives nodes unset switches signals (fun progress => act' (act progress).2) signal' := by
  intro progress hsound
  obtain ⟨-, hafter, hkeeps⟩ := h progress hsound
  obtain ⟨hfst', hafter', hkeeps'⟩ := h' _ hafter
  exact ⟨hfst', hafter', fun hknown => hkeeps' (hkeeps hknown)⟩

theorem gives_read {name : Char} (hreads : Reads nodes name) :
    Gives nodes unset switches signals (Progress.read unset name)
      (unset.reading switches name) := by
  intro progress hsound
  refine ⟨?_, hsound.read hreads, fun hknown => ?_⟩
  · rw [Progress.fst_read, hsound.reading]
  · rwa [Progress.signal?_read]

/-- The operands of a gate decide its signal, even though none is read after the first dominant
one. Of the operands that were read, `seen`, none was dominant. -/
theorem gives_gather {visit : NodeId → Progress → Signal × Progress} {dominant : Signal}
    {seen : List Signal} {inputs : List NodeId} (hseen : dominant ∉ seen)
    (h : ∀ input ∈ inputs, Gives nodes unset switches signals (visit input) (signals input)) :
    Gives nodes unset switches signals (gather visit dominant (decide (.unknown ∈ seen)) inputs)
      (.combine dominant (seen ++ inputs.map signals)) := by
  induction inputs generalizing seen with
  | nil =>
    rw [List.map_nil, List.append_nil, Signal.combine, if_neg hseen]
    refine .of_eq (fun progress _ => ?_) (gives_known _)
    simp only [gather, decide_eq_true_eq]
  | cons input inputs ih =>
    obtain ⟨hinput, hinputs⟩ := List.forall_mem_cons.1 h
    rw [List.map_cons]
    by_cases hdominant : signals input = dominant
    · have heq : ∀ progress, Sound nodes unset switches signals progress →
          gather visit dominant (decide (.unknown ∈ seen)) (input :: inputs) progress =
            (dominant, (visit input progress).2) := by
        intro progress hsound
        simp only [gather, (hinput progress hsound).fst, if_pos hdominant]
      rw [Signal.combine, if_pos (by simp [hdominant])]
      exact .of_eq heq (hinput.map fun _ => dominant)
    · have heq : ∀ progress, Sound nodes unset switches signals progress →
          gather visit dominant (decide (.unknown ∈ seen)) (input :: inputs) progress =
            gather visit dominant (decide (.unknown ∈ seen ++ [signals input])) inputs
              (visit input progress).2 := by
        intro progress hsound
        simp only [gather, (hinput progress hsound).fst, if_neg hdominant]
        simp [Bool.decide_or, eq_comm]
      have hseen' : dominant ∉ seen ++ [signals input] := by
        simp [hseen, Ne.symm hdominant]
      rw [List.append_cons]
      exact .of_eq heq (hinput.after (ih hseen' hinputs))

/-- An operation gives its signal if its operands give theirs. -/
theorem gives_work {visit : NodeId → Progress → Signal × Progress} {operation : Operation}
    (hreads : ∀ name, operation = .var name → Reads nodes name)
    (h : ∀ input ∈ operation.inputs,
      Gives nodes unset switches signals (visit input) (signals input)) :
    Gives nodes unset switches signals (work visit unset · operation)
      (operation.signal (unset.reading switches) signals) := by
  cases operation with
  | var name => exact gives_read (hreads name rfl)
  | not input => exact (h input List.mem_cons_self).map Signal.invert
  | and inputs => exact gives_gather List.not_mem_nil h
  | or inputs => exact gives_gather List.not_mem_nil h

end

/-! ### Visits -/

section

variable {nodes : Array (Node α)} {unset : Unset} {switches : Switches}
  {signals : NodeId → Signal} {progress : Progress} {depth : Nat} {id : NodeId} {node : Node α}

/-- A right signal may be remembered, and is known from then on. -/
theorem Outcome.remember {result : Signal × Progress} (hnode : nodes[id]? = some node)
    (hsettled : ∀ name, unset = .off → node.operation = .var name →
      (result.2.switches.get? name).isSome)
    (h : Outcome nodes unset switches signals progress (signals id) result) :
    Outcome nodes unset switches signals progress (signals id)
        (result.1, result.2.remember id result.1) ∧
      ((result.2.remember id result.1).signal? id).isSome := by
  obtain ⟨hfst, hsound, hkeeps⟩ := h
  have hid : id < result.2.memo.size := by
    rw [hsound.size]
    exact (Array.getElem?_eq_some_iff.1 hnode).1
  rw [hfst]
  refine ⟨⟨rfl, hsound.remember hnode hsettled, fun hknown => ?_⟩, ?_⟩
  · rw [Progress.signal?_remember hid]
    split
    · rfl
    · exact hkeeps hknown
  · rw [Progress.signal?_remember hid, if_pos rfl]
    rfl

variable (hsolves : Solves nodes (unset.reading switches) signals)

include hsolves

theorem outcome_visit_of_node (hnode : nodes[id]? = some node)
    (h : ∀ input ∈ node.operation.inputs,
      Gives nodes unset switches signals (visit nodes unset depth input) (signals input))
    (hsound : Sound nodes unset switches signals progress) :
    Outcome nodes unset switches signals progress (signals id)
        (visit nodes unset (depth + 1) id progress) ∧
      ((visit nodes unset (depth + 1) id progress).2.signal? id).isSome := by
  cases hknown : progress.signal? id with
  | some signal =>
    rw [visit_of_known nodes unset depth hknown]
    refine ⟨⟨(hsound.memo hknown).symm, hsound, fun h => h⟩, ?_⟩
    rw [hknown]
    rfl
  | none =>
    rw [visit_of_node nodes unset depth hknown hnode]
    refine Outcome.remember hnode (fun name hoff hvar => ?_) ?_
    · rw [hvar, hoff]
      exact isSome_get?_read name progress
    · rw [hsolves.node hnode]
      refine gives_work (fun name hvar => ?_) h progress hsound
      exact ⟨id, node, name, hnode, hvar, rfl⟩

/-- A visit that may go deep enough gives the right signal. -/
theorem gives_visit (hshallow : Shallow nodes depth id) :
    Gives nodes unset switches signals (visit nodes unset depth id) (signals id) := by
  induction depth generalizing id with
  | zero => exact hshallow.elim
  | succ depth ih =>
    intro progress hsound
    cases hnode : nodes[id]? with
    | some node =>
      exact (outcome_visit_of_node hsolves hnode
        (fun input hinput => ih (hshallow node hnode input hinput)) hsound).1
    | none =>
      have hknown := hsound.signal?_of_size_le (Array.getElem?_eq_none_iff.1 hnode)
      rw [visit_of_missing nodes unset depth hknown hnode, hsolves.missing hnode]
      exact ⟨rfl, hsound, fun h => h⟩

theorem isSome_signal?_visit (hshallow : Shallow nodes (depth + 1) id)
    (hnode : nodes[id]? = some node) (hsound : Sound nodes unset switches signals progress) :
    ((visit nodes unset (depth + 1) id progress).2.signal? id).isSome :=
  (outcome_visit_of_node hsolves hnode
    (fun input hinput => gives_visit hsolves (hshallow node hnode input hinput)) hsound).2

/-! ### Runs -/

variable (hshallow : ∀ id, Shallow nodes (depthLimit nodes) id)

include hshallow

/-- Visiting one node after the other keeps progress sound, forgets nothing and leaves no visited
node without its signal. -/
theorem sound_visitAll (ids : List NodeId)
    (hsound : Sound nodes unset switches signals progress) :
    Sound nodes unset switches signals (visitAll nodes unset ids progress) ∧
      (∀ id, (progress.signal? id).isSome →
        ((visitAll nodes unset ids progress).signal? id).isSome) ∧
      ∀ id ∈ ids, id < nodes.size →
        ((visitAll nodes unset ids progress).signal? id).isSome := by
  induction ids generalizing progress with
  | nil => exact ⟨hsound, fun id h => h, fun id h => absurd h List.not_mem_nil⟩
  | cons first ids ih =>
    obtain ⟨-, hafter, hkeeps⟩ := gives_visit hsolves (hshallow first) progress hsound
    obtain ⟨hall, hallKeeps, hknown⟩ := ih hafter
    refine ⟨hall, fun id h => hallKeeps id (hkeeps h), fun id hmem hid => ?_⟩
    rcases List.mem_cons.1 hmem with rfl | hmem
    · apply hallKeeps
      exact isSome_signal?_visit hsolves (hshallow id) (Array.getElem?_eq_getElem hid) hsound
    · exact hknown id hmem hid

theorem sound_run : Sound nodes unset switches signals (run nodes unset switches) :=
  (sound_visitAll hsolves hshallow _ (sound_start nodes unset switches signals)).1

variable (hplaces : ∀ (id : NodeId) (node : Node α), nodes[id]? = some node → node.id = id)

include hplaces

/-- Where every node's name is its place, a run works out the signals of all nodes. -/
theorem signal?_run (id : NodeId) :
    (run nodes unset switches).signal? id =
      if id < nodes.size then some (signals id) else none := by
  have hsound := sound_run hsolves hshallow
  split
  · next hid =>
    have hnode := Array.getElem?_eq_getElem hid
    have hmem : id ∈ order nodes := by
      rw [(order_perm nodes).mem_iff, List.mem_map]
      exact ⟨nodes[id], Array.getElem_mem_toList hid, hplaces id _ hnode⟩
    obtain ⟨signal, hsignal⟩ := Option.isSome_iff_exists.1 <|
      (sound_visitAll hsolves hshallow (order nodes)
        (sound_start nodes unset switches signals)).2.2 id hmem hid
    have hrun : (run nodes unset switches).signal? id = some signal := hsignal
    rw [hrun, hsound.memo hrun]
  · next hid => exact hsound.signal?_of_size_le (Nat.not_lt.1 hid)

end

/-! ### The table afterwards -/

section

variable {nodes : Array (Node α)} {switches : Switches} {signals : NodeId → Signal}
  (hsolves : Solves nodes (Unset.off.reading switches) signals)
  (hshallow : ∀ id, Shallow nodes (depthLimit nodes) id)

include hsolves hshallow

/-- What the diagram does not read is not touched. -/
theorem get?_run_of_not_reads {name : Char} (h : ¬ Reads nodes name) :
    (run nodes .off switches).switches.get? name = switches.get? name := by
  rcases (sound_run hsolves hshallow).table name with heq | ⟨-, hreads, -⟩
  · exact heq
  · exact absurd hreads h

variable (hplaces : ∀ (id : NodeId) (node : Node α), nodes[id]? = some node → node.id = id)

include hplaces

/-- What the diagram reads is settled. -/
theorem get?_run_of_reads {name : Char} (h : Reads nodes name) :
    (run nodes .off switches).switches.get? name = some (switches.getD name) := by
  have hsound := sound_run hsolves hshallow
  rcases hsound.table name with heq | ⟨-, -, heq⟩
  · obtain ⟨id, node, letter, hnode, hvar, hletter⟩ := h
    have hid : id < nodes.size := (Array.getElem?_eq_some_iff.1 hnode).1
    have hsome : ((run nodes .off switches).signal? id).isSome := by
      rw [signal?_run hsolves hshallow hplaces, if_pos hid]
      rfl
    have hsettled := hsound.settled rfl hnode hvar hsome
    rw [Switches.get?_congr _ hletter, heq] at hsettled
    obtain ⟨value, hvalue⟩ := Option.isSome_iff_exists.1 hsettled
    rw [heq, Switches.getD, hvalue, Option.getD_some]
  · exact heq

end

end Schematic.Evaluation
