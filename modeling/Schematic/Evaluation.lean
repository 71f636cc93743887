import Schematic.Diagram
import Schematic.Switches

/-!
# Evaluating a diagram

Every node gets a signal, worked out in three values: an `and` gate is low if an operand is low,
else unknown if one is unknown, else high; an `or` gate the other way round. The operands are
read from left to right, and none is read after one that decides the gate.

The nodes are visited in the order of their levels, and each signal is worked out once and then
remembered. If a gate's operand has no signal yet, it is worked out on the spot. A gate may name
a node that does not exist; that counts as unknown.

A variable without a value is either off, and the table of switches is told so, or unknown.
-/

namespace Schematic

namespace Evaluation

/-! ### Values of variables -/

/-- What a variable without a value counts as. -/
inductive Unset where
  /-- It is off, and the table is told. -/
  | off
  /-- It is unknown. -/
  | unknown
  deriving DecidableEq, Repr

/-- What is known in the middle of an evaluation. -/
structure Progress where
  /-- The signals worked out so far, by node. -/
  memo : Array (Option Signal)
  /-- The switches. -/
  switches : Switches
  deriving DecidableEq

namespace Progress

/-- The signal of a node, if it has been worked out. -/
def signal? (progress : Progress) (id : NodeId) : Option Signal := progress.memo[id]?.join

/-- Remembers the signal of a node. -/
def remember (progress : Progress) (id : NodeId) (signal : Signal) : Progress :=
  { progress with memo := progress.memo.setIfInBounds id (some signal) }

/-- The signal of a variable. -/
def read (unset : Unset) (name : Char) (progress : Progress) : Signal × Progress :=
  match unset with
  | .off =>
    (.ofBool (progress.switches.getD name),
      { progress with switches := progress.switches.settle name })
  | .unknown => ((progress.switches.get? name).elim .unknown .ofBool, progress)

end Progress

/-! ### Nodes -/

/-- The signal of a gate whose operands are worked out by `visit`, from left to right and none
after the first that is `dominant`. -/
def gather (visit : NodeId → Progress → Signal × Progress) (dominant : Signal)
    (sawUnknown : Bool) : List NodeId → Progress → Signal × Progress
  | [], progress => (if sawUnknown then .unknown else dominant.invert, progress)
  | input :: inputs, progress =>
    let (signal, progress) := visit input progress
    if signal = dominant then (dominant, progress)
    else gather visit dominant (sawUnknown || signal = .unknown) inputs progress

variable {α : Type}

/-- Works out the signal of a node and of what it depends on, at most `depth` nodes deep. -/
def visit (nodes : Array (Node α)) (unset : Unset) :
    (depth : Nat) → NodeId → Progress → Signal × Progress
  | 0, _, progress => (.unknown, progress)
  | depth + 1, id, progress =>
    match progress.signal? id with
    | some signal => (signal, progress)
    | none =>
      match nodes[id]? with
      | none => (.unknown, progress)
      | some node =>
        let (signal, progress) := match node.operation with
          | .var name => progress.read unset name
          | .not input =>
            let (signal, progress) := visit nodes unset depth input progress
            (signal.invert, progress)
          | .and inputs => gather (visit nodes unset depth) .low false inputs progress
          | .or inputs => gather (visit nodes unset depth) .high false inputs progress
        (signal, progress.remember id signal)

/-- How deep a visit can go where no node depends on itself: through every node, and on to one
that does not exist. -/
def depthLimit (nodes : Array (Node α)) : Nat := nodes.size + 1

/-- The nodes in the order of their levels; of those on one level, the first one first. A node that
does not exist is on level zero. -/
def order (nodes : Array (Node α)) : List NodeId :=
  let level (id : NodeId) : Nat := (nodes[id]?.map (·.level)).getD 0
  (Levels.group (nodes.toList.map fun node => (level node.id, node.id))).flatMap (·.2)

/-- Works out the signals of nodes, one after the other. -/
def visitAll (nodes : Array (Node α)) (unset : Unset) (ids : List NodeId) (progress : Progress) :
    Progress :=
  ids.foldl (fun progress id => (visit nodes unset (depthLimit nodes) id progress).2) progress

/-- Works out the signals of a diagram's nodes. -/
def run (nodes : Array (Node α)) (unset : Unset) (switches : Switches) : Progress :=
  visitAll nodes unset (order nodes) ⟨Array.replicate nodes.size none, switches⟩

end Evaluation

/-! ### Diagrams -/

namespace Diagram

variable {α : Type}

/-- Puts signals on the nodes, and on every wire that of the node it comes from. -/
def withSignals (diagram : Diagram α) (progress : Evaluation.Progress) : Diagram α :=
  { diagram with
    nodes := diagram.nodes.mapIdx fun id node => { node with signal := progress.signal? id }
    wires := diagram.wires.map fun wire => { wire with signal := progress.signal? wire.source } }

/-- What the diagram puts out, unknown if that has not been worked out. -/
def output (diagram : Diagram α) : Signal := diagram.output?.getD .unknown

/-- Evaluates a diagram. A switch without a value is off, and is in the table afterwards. -/
def evaluate (diagram : Diagram α) (switches : Switches) : Diagram α × Switches :=
  let progress := Evaluation.run diagram.nodes .off switches
  (diagram.withSignals progress, progress.switches)

/-- Evaluates a diagram as far as the switches that have a value allow. -/
def evaluatePartial (diagram : Diagram α) (switches : Switches) : Diagram α :=
  diagram.withSignals (Evaluation.run diagram.nodes .unknown switches)

end Diagram

end Schematic
