import Schematic.Evaluation

/-!
# Diagrams that are changed later

The nodes and wires of a diagram, its canvas and its root lie open: anybody may put others in their
place, or evaluate the diagram. What it remembers of its layout is out of reach. So after any
changes a diagram remembers what it did before (`origin_after`), and as no change makes room for
another node, it has no more nodes than it had (`size_nodes_after_le`).
-/

namespace Schematic

variable {α : Type}

/-- A later change of a diagram. None of them makes room for another node. -/
inductive Change (α : Type) where
  /-- Puts nodes in the place of those there, as when fields of some are assigned or the last ones
  are dropped. Those there is no room for are left out. -/
  | nodes (nodes : Array (Node α))
  /-- Puts wires in the place of those there. -/
  | wires (wires : Array Wire)
  /-- Takes another node for the root. -/
  | root (root : NodeId)
  /-- Gives the canvas another size. -/
  | canvas (width height : α)
  /-- Evaluates the diagram, where a switch without a value is off. -/
  | evaluate (switches : Switches)
  /-- Evaluates the diagram as far as the switches that have a value allow. -/
  | evaluatePartial (switches : Switches)

namespace Diagram

/-- A diagram after a change. -/
def change (diagram : Diagram α) : Change α → Diagram α
  | .nodes nodes => { diagram with nodes := nodes.take diagram.nodes.size }
  | .wires wires => { diagram with wires := wires }
  | .root root => { diagram with root := root }
  | .canvas width height => { diagram with width := width, height := height }
  | .evaluate switches => (diagram.evaluate switches).1
  | .evaluatePartial switches => diagram.evaluatePartial switches

/-- A diagram after changes, one after the other. -/
def after (diagram : Diagram α) (changes : List (Change α)) : Diagram α :=
  changes.foldl change diagram

/-! ### One change -/

theorem origin_change (diagram : Diagram α) (change : Change α) :
    (diagram.change change).origin = diagram.origin := by
  cases change <;> rfl

theorem size_nodes_change_le (diagram : Diagram α) (change : Change α) :
    (diagram.change change).nodes.size ≤ diagram.nodes.size := by
  cases change with
  | nodes nodes =>
    rw [Diagram.change, Array.take_eq_extract, Array.size_extract]
    omega
  | wires wires => exact Nat.le_refl _
  | root root => exact Nat.le_refl _
  | canvas width height => exact Nat.le_refl _
  | evaluate switches => exact Nat.le_of_eq Array.size_mapIdx
  | evaluatePartial switches => exact Nat.le_of_eq Array.size_mapIdx

/-! ### Any changes -/

@[simp] theorem origin_after (diagram : Diagram α) (changes : List (Change α)) :
    (diagram.after changes).origin = diagram.origin := by
  induction changes generalizing diagram with
  | nil => rfl
  | cons change changes ih => exact (ih _).trans (origin_change diagram change)

theorem size_nodes_after_le (diagram : Diagram α) (changes : List (Change α)) :
    (diagram.after changes).nodes.size ≤ diagram.nodes.size := by
  induction changes generalizing diagram with
  | nil => exact Nat.le_refl _
  | cons change changes ih => exact Nat.le_trans (ih _) (size_nodes_change_le diagram change)

end Diagram

end Schematic
