import Schematic.Diagram.Node
import Schematic.Layout.Settings

/-!
# Levels and sizes

The level, the fan-in and the size of every node. The nodes are measured from the last to the
first: a node's operands have larger numbers, so they have been measured when it is its turn. An
operand that has not been measured by then counts for nothing.
-/

namespace Schematic

/-- What is known of a node before it is placed. -/
structure Metrics (α : Type) where
  /-- The longest way down to a leaf. -/
  level : Nat
  /-- How many variables stand under it. -/
  fanIn : Nat
  /-- How wide it is. -/
  width : α
  /-- How high it is. -/
  height : α
  deriving Repr

namespace Layout

open Scalar

variable {α : Type} [Scalar α]

/-- By how many variables a node of a gate grows, with so many under it. -/
def growth (settings : Settings α) (gate : Gate) (fanIn : Nat) : Nat :=
  match gate with
  | .var => 0
  | .not => min (fanIn - 1) settings.notGrowthCap
  | .and | .or => fanIn - 2

/-- The size of a node: it grows with the variables under it and with its level. -/
def nodeSize (settings : Settings α) (gate : Gate) (fanIn level : Nat) : α × α :=
  let extra : α := whole (growth settings gate fanIn)
  let (width, height) := match gate with
    | .var => (settings.baseWidth, settings.baseHeight)
    | .not =>
      (settings.baseWidth + extra * settings.notWidthPerLeaf,
        settings.baseHeight + extra * settings.notHeightPerLeaf)
    | .and | .or =>
      (settings.baseWidth + extra * settings.gateWidthPerInput,
        settings.baseHeight + extra * settings.gateHeightPerInput)
  (width + whole level * settings.widthPerLevel, height + whole level * settings.heightPerLevel)

/-- The metrics of a node whose operands have the given ones. -/
def nodeMetrics (settings : Settings α) (gate : Gate) (inputs : List (Metrics α)) : Metrics α :=
  let (level, fanIn) := match gate with
    | .var => (0, 1)
    | _ => (1 + (inputs.map (·.level)).foldl max 0, (inputs.map (·.fanIn)).foldl (· + ·) 0)
  let (width, height) := nodeSize settings gate fanIn level
  ⟨level, fanIn, width, height⟩

/-- The metrics of the nodes from `first` on. -/
def metricsFrom (settings : Settings α) (first : NodeId) : List Operation → List (Metrics α)
  | [] => []
  | operation :: operations =>
    let later := metricsFrom settings (first + 1) operations
    let inputs := operation.inputs.filterMap fun id =>
      if first < id then later[id - (first + 1)]? else none
    nodeMetrics settings operation.gate inputs :: later

/-- The metrics of all nodes. -/
def metrics (settings : Settings α) (operations : List Operation) : List (Metrics α) :=
  metricsFrom settings 0 operations

end Layout

end Schematic
