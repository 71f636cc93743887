import Schematic.Evaluation
import Schematic.Proofs.Evaluation.Kleene
import Schematic.Proofs.Switches

/-!
# What is known in the middle of an evaluation

The signals that solve a diagram are those that agree, node by node, with what the nodes compute.
Progress towards them is sound if every signal worked out so far is the right one and the table of
switches differs from the given one only in variables of the diagram that were unset and are off
now. Reading a variable and remembering a right signal keep progress sound (`Sound.read`,
`Sound.remember`).
-/

namespace Schematic.Evaluation

/-! ### Reading variables -/

/-- The values of variables that are read off a table of switches. -/
def Unset.reading (unset : Unset) (switches : Switches) (name : Char) : Signal :=
  match unset with
  | .off => .ofBool (switches.getD name)
  | .unknown => (switches.get? name).elim .unknown .ofBool

theorem Progress.fst_read (unset : Unset) (name : Char) (progress : Progress) :
    (progress.read unset name).1 = unset.reading progress.switches name := by
  cases unset <;> rfl

@[simp] theorem Progress.signal?_read (unset : Unset) (name : Char) (progress : Progress)
    (id : NodeId) : (progress.read unset name).2.signal? id = progress.signal? id := by
  cases unset <;> rfl

/-! ### Remembering signals -/

namespace Progress

theorem signal?_remember {progress : Progress} {id : NodeId} (h : id < progress.memo.size)
    (signal : Signal) (other : NodeId) :
    (progress.remember id signal).signal? other =
      if id = other then some signal else progress.signal? other := by
  simp only [signal?, remember, Array.getElem?_setIfInBounds, if_pos h]
  split <;> rfl

@[simp] theorem size_memo_remember (progress : Progress) (id : NodeId) (signal : Signal) :
    (progress.remember id signal).memo.size = progress.memo.size :=
  Array.size_setIfInBounds

end Progress

/-! ### Solutions -/

variable {α : Type}

/-- Signals that agree with what the nodes compute. -/
structure Solves (nodes : Array (Node α)) (read : Char → Signal) (signals : NodeId → Signal) :
    Prop where
  /-- A node that does not exist is unknown. -/
  missing {id : NodeId} : nodes[id]? = none → signals id = .unknown
  /-- A node has the signal that its operation gives. -/
  node {id : NodeId} {node : Node α} :
    nodes[id]? = some node → signals id = node.operation.signal read signals

/-- Some node is the variable, in either case. -/
def Reads (nodes : Array (Node α)) (name : Char) : Prop :=
  ∃ (id : NodeId) (node : Node α) (letter : Char),
    nodes[id]? = some node ∧ node.operation = .var letter ∧ letter.toUpper = name.toUpper

/-- Progress that is right, towards `signals` and from a table of switches. -/
structure Sound (nodes : Array (Node α)) (unset : Unset) (switches : Switches)
    (signals : NodeId → Signal) (progress : Progress) : Prop where
  /-- There is room for the signal of every node. -/
  size : progress.memo.size = nodes.size
  /-- Every signal worked out so far is right. -/
  memo {id : NodeId} {signal : Signal} : progress.signal? id = some signal → signals id = signal
  /-- A switch has the value it had, or it is one of the diagram's and was settled. -/
  table (name : Char) :
    progress.switches.get? name = switches.get? name ∨
      unset = .off ∧ Reads nodes name ∧
        progress.switches.get? name = some (switches.getD name)
  /-- The switches of all variables that were worked out are settled. -/
  settled {id : NodeId} {node : Node α} {name : Char} :
    unset = .off → nodes[id]? = some node → node.operation = .var name →
      (progress.signal? id).isSome → (progress.switches.get? name).isSome

section

variable {nodes : Array (Node α)} {unset : Unset} {switches : Switches}
  {signals : NodeId → Signal} {progress : Progress}

theorem sound_start (nodes : Array (Node α)) (unset : Unset) (switches : Switches)
    (signals : NodeId → Signal) :
    Sound nodes unset switches signals ⟨Array.replicate nodes.size none, switches⟩ := by
  have hnone : ∀ id, Progress.signal? ⟨Array.replicate nodes.size none, switches⟩ id = none := by
    intro id
    simp only [Progress.signal?, Array.getElem?_replicate]
    split <;> rfl
  constructor
  · exact Array.size_replicate
  · intro id signal h
    cases (hnone id).symm.trans h
  · intro name
    exact .inl rfl
  · intro id node name _ _ _ h
    rw [hnone] at h
    cases h

theorem Sound.signal?_of_size_le (h : Sound nodes unset switches signals progress) {id : NodeId}
    (hid : nodes.size ≤ id) : progress.signal? id = none := by
  rw [← h.size] at hid
  rw [Progress.signal?, Array.getElem?_eq_none hid]
  rfl

theorem Sound.getD_switches (h : Sound nodes .off switches signals progress) (name : Char) :
    progress.switches.getD name = switches.getD name := by
  rcases h.table name with heq | ⟨-, -, heq⟩
  · rw [Switches.getD, heq, Switches.getD]
  · rw [Switches.getD, heq, Option.getD_some]

theorem Sound.switches_eq (h : Sound nodes .unknown switches signals progress) :
    progress.switches = switches := by
  apply Switches.ext_get?
  intro name
  rcases h.table name with heq | ⟨habsurd, -⟩
  · exact heq
  · cases habsurd

/-- What a variable counts as does not change. -/
theorem Sound.reading (h : Sound nodes unset switches signals progress) (name : Char) :
    unset.reading progress.switches name = unset.reading switches name := by
  cases unset with
  | off => rw [Unset.reading, Unset.reading, h.getD_switches]
  | unknown => rw [h.switches_eq]

/-- Reading a variable of the diagram keeps progress sound. -/
theorem Sound.read (h : Sound nodes unset switches signals progress) {name : Char}
    (hreads : Reads nodes name) :
    Sound nodes unset switches signals (progress.read unset name).2 := by
  cases unset with
  | unknown => exact h
  | off =>
    refine ⟨h.size, h.memo, fun other => ?_, fun hoff hnode hvar hsome => ?_⟩
    · show (progress.switches.settle name).get? other = _ ∨ _ ∧ _ ∧
        (progress.switches.settle name).get? other = _
      rw [Switches.get?_settle]
      split
      · next heq =>
        obtain ⟨id, node, letter, hnode, hvar, hletter⟩ := hreads
        refine .inr ⟨rfl, ⟨id, node, letter, hnode, hvar, hletter.trans heq.symm⟩, ?_⟩
        rw [h.getD_switches, Switches.getD_congr switches heq]
      · exact h.table other
    · exact Switches.isSome_get?_settle name (h.settled hoff hnode hvar hsome)

/-- After a variable has been read, its switch is settled. -/
theorem isSome_get?_read (name : Char) (progress : Progress) :
    ((progress.read .off name).2.switches.get? name).isSome := by
  show ((progress.switches.settle name).get? name).isSome
  rw [Switches.get?_settle, if_pos rfl]
  rfl

/-- Remembering a right signal keeps progress sound, if the switch of a variable is settled
first. -/
theorem Sound.remember (h : Sound nodes unset switches signals progress) {id : NodeId}
    {node : Node α} (hnode : nodes[id]? = some node)
    (hsettled : ∀ name, unset = .off → node.operation = .var name →
      (progress.switches.get? name).isSome) :
    Sound nodes unset switches signals (progress.remember id (signals id)) := by
  have hid : id < progress.memo.size := by
    rw [h.size]
    exact (Array.getElem?_eq_some_iff.1 hnode).1
  refine ⟨?_, fun hsignal => ?_, h.table, fun hoff hother hvar hsome => ?_⟩
  · rw [Progress.size_memo_remember, h.size]
  · rw [Progress.signal?_remember hid] at hsignal
    split at hsignal
    · next heq =>
      rw [← heq]
      exact Option.some.inj hsignal
    · exact h.memo hsignal
  · rw [Progress.signal?_remember hid] at hsome
    split at hsome
    · next heq =>
      subst heq
      obtain rfl := Option.some.inj (hnode.symm.trans hother)
      exact hsettled _ hoff hvar
    · exact h.settled hoff hother hvar hsome

end

end Schematic.Evaluation
