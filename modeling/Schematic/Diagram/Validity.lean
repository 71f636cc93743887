import Schematic.Decimal.Places
import Schematic.Diagram
import Schematic.Error
import Schematic.Layout.Settings

/-!
# Checking a diagram

The rules of placement: there is a node, every wire runs from a lower level to a higher one, the
nodes of one level keep their distance, and every node lies on the canvas. A check finds the first
fault in that order. Distances are compared with a tolerance.
-/

namespace Schematic

/-- How a diagram breaks a rule of placement. -/
inductive Diagram.Fault (α : Type) where
  /-- It has no nodes. -/
  | noNodes
  /-- A wire has an end where there is no node. -/
  | danglingWire (source target : NodeId)
  /-- A wire does not lead from a lower level to a higher one. -/
  | flatWire (source target : NodeId) (sourceLevel targetLevel : Nat)
  /-- Two nodes of a level stand closer than they may. -/
  | tooClose (upper lower : NodeId) (level : Nat) (gap : α)
  /-- A node does not lie on the canvas. -/
  | outside (id : NodeId)
  deriving Repr

/-- What a fault is called, with a text for distances. -/
def Diagram.Fault.message {α : Type} (distance : α → String) : Diagram.Fault α → String
  | noNodes => "graph has no nodes"
  | danglingWire source target =>
    s!"edge {source.text} -> {target.text} references a missing node"
  | flatWire source target sourceLevel targetLevel =>
    s!"edge {source.text} -> {target.text} does not rise in level ({sourceLevel} -> {targetLevel})"
  | tooClose upper lower level gap =>
    s!"nodes {upper.text} and {lower.text} on level {level} are closer than {distance gap}"
  | outside id => s!"node {id.text} lies outside the canvas"

namespace Diagram

open Scalar

variable {α : Type} [Scalar α]

/-- The tolerance of a check: one millionth. -/
def tolerance : α := whole 1 / whole 1000000

/-- What is wrong with a wire. -/
def wireFault? (diagram : Diagram α) (wire : Wire) : Option (Fault α) :=
  match diagram.node? wire.source, diagram.node? wire.target with
  | some source, some target =>
    if target.level ≤ source.level then
      some (.flatWire wire.source wire.target source.level target.level)
    else none
  | _, _ => some (.danglingWire wire.source wire.target)

/-- Nodes in the order in which they stand, from the top down. -/
def fromTop (nodes : List (Node α)) : List (Node α) :=
  nodes.mergeSort fun a b => (order a.box.y b.box.y).isLE

/-- The first two neighbours of a list that stand closer than `gap`. -/
def closePair? (tolerance gap : α) : List (Node α) → Option (Node α × Node α)
  | upper :: lower :: rest =>
    if lower.box.y + tolerance < upper.box.bottom + gap then some (upper, lower)
    else closePair? tolerance gap (lower :: rest)
  | _ => none

/-- What is wrong with a level. -/
def levelFault? (tolerance : α) (settings : Settings α) (diagram : Diagram α) (level : Nat)
    (ids : List NodeId) : Option (Fault α) :=
  let column := fromTop (ids.filterMap diagram.node?)
  let gap := settings.minSeparation (Levels.highest (column.map (·.fanIn)))
  (closePair? tolerance gap column).map fun (upper, lower) =>
    .tooClose upper.id lower.id level gap

/-- A node lies on the canvas. -/
def onCanvas (tolerance : α) (diagram : Diagram α) (box : Box α) : Bool :=
  !(box.x < -tolerance ∨ box.y < -tolerance ∨ diagram.width + tolerance < box.right ∨
    diagram.height + tolerance < box.bottom)

/-- What is wrong with a node. -/
def nodeFault? (tolerance : α) (diagram : Diagram α) (node : Node α) : Option (Fault α) :=
  if diagram.onCanvas tolerance node.box then none else some (.outside node.id)

/-- The first fault of a diagram. -/
def fault? (tolerance : α) (settings : Settings α) (diagram : Diagram α) : Option (Fault α) :=
  (if diagram.nodes.isEmpty then some .noNodes else none) <|>
    diagram.wires.toList.findSome? diagram.wireFault? <|>
    diagram.levels.findSome? (fun (level, ids) =>
      levelFault? tolerance settings diagram level ids) <|>
    diagram.nodes.toList.findSome? (nodeFault? tolerance diagram)

/-- Checks a diagram against settings, with a tolerance and with a text for the distances that a
fault names. -/
def validateWith (tolerance : α) (distance : α → String) (settings : Settings α)
    (diagram : Diagram α) : Except Error Unit :=
  match fault? tolerance settings diagram with
  | none => .ok ()
  | some fault => .error (.invalidLayout (fault.message distance))

/-- Checks a diagram against settings. -/
def validate (settings : Settings Float) (diagram : Diagram Float) : Except Error Unit :=
  validateWith tolerance (Decimal.fixed 1) settings diagram

end Diagram

end Schematic
