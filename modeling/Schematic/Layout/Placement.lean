import Schematic.Diagram.Node
import Schematic.Layout.Metrics
import Schematic.Layout.Settings
import Schematic.Levels

/-!
# Placing the nodes

Every level is a column. The columns stand side by side, the lowest level on the left, and the
nodes of a column are stacked from the top margin down. Then, from the lowest level to the highest,
every gate is centred on its operands, and nodes of one column that have come too close are pushed
apart downwards (`sweep`). In the end the drawing is shifted so that its topmost node stands at the
margin.

A column is swept in the order in which its nodes stood before; a node that is pushed down may
push the next one.
-/

namespace Schematic.Layout

open Scalar

variable {α : Type} [Scalar α]

/-! ### Columns -/

/-- The nodes of one level, with their numbers. -/
structure Column (α : Type) where
  /-- The level. -/
  level : Nat
  /-- The nodes, in the order of their numbers. -/
  members : List (NodeId × Metrics α)
  deriving Repr

namespace Column

/-- The numbers of a column's nodes. -/
def ids (column : Column α) : List NodeId := column.members.map (·.1)

/-- The largest fan-in in a column. -/
def fanIn (column : Column α) : Nat := (column.members.map (·.2.fanIn)).foldl max 0

/-- The width of a column: that of its widest node. -/
def width (column : Column α) : α := (column.members.map (·.2.width)).foldl larger zero

end Column

/-- The columns of a drawing, from left to right. -/
def columns (metrics : List (Metrics α)) : List (Column α) :=
  (Levels.group (metrics.zipIdx.map fun (m, id) => (m.level, (id, m)))).map fun (level, members) =>
    ⟨level, members⟩

/-! ### The first position -/

/-- Moves the left edge of a box. -/
def moveX (x : α) (id : NodeId) (boxes : Array (Box α)) : Array (Box α) :=
  boxes.modify id fun box => { box with x := x }

/-- Moves the top edge of a box. -/
def moveY (y : α) (id : NodeId) (boxes : Array (Box α)) : Array (Box α) :=
  boxes.modify id fun box => { box with y := y }

/-- Puts columns side by side, the first one at `x`. -/
def spread (settings : Settings α) (x : α) :
    List (Column α) → Array (Box α) → Array (Box α)
  | [], boxes => boxes
  | column :: columns, boxes =>
    spread settings (x + (column.width + settings.columnGap)) columns
      (column.ids.foldl (fun boxes id => moveX x id boxes) boxes)

/-- Stacks nodes with gaps between them, the first one at `y`. -/
def stack (gap y : α) : List (NodeId × Metrics α) → Array (Box α) → Array (Box α)
  | [], boxes => boxes
  | (id, m) :: members, boxes => stack gap (y + (m.height + gap)) members (moveY y id boxes)

/-- Stacks the nodes of a column from the top margin down. -/
def stackColumn (settings : Settings α) (boxes : Array (Box α)) (column : Column α) :
    Array (Box α) :=
  stack (settings.rowGapFor column.fanIn) settings.marginY column.members boxes

/-! ### Centring and separating -/

/-- Centres a node on those that feed it. A node that nothing feeds stays where it is. -/
def centre (inputs : List NodeId) (id : NodeId) (boxes : Array (Box α)) : Array (Box α) :=
  if inputs.isEmpty then boxes
  else
    let total := sum ((inputs.filterMap (boxes[·]?)).map Box.centreY)
    let middle := total / whole inputs.length
    boxes.modify id fun box => { box with y := middle - half box.height }

/-- Nodes in the order in which they stand, from the top down; of two at one height, the one
with the smaller number first. -/
def fromTop (boxes : Array (Box α)) (ids : List NodeId) : List NodeId :=
  let placed := ids.filterMap fun id => boxes[id]?.map fun box => (box.y, id)
  (placed.mergeSort fun a b => ((order a.1 b.1).then (compare a.2 b.2)).isLE).map (·.2)

/-- Pushes a node down until it stands at least `gap` below another one. -/
def keepBelow (gap : α) (upper lower : NodeId) (boxes : Array (Box α)) : Array (Box α) :=
  match boxes[upper]? with
  | none => boxes
  | some above =>
    let lowest := above.bottom + gap
    boxes.modify lower fun box => if box.y < lowest then { box with y := lowest } else box

/-- Pushes every node of a list down until it stands at least `gap` below the one before it. -/
def sweep (gap : α) : List NodeId → Array (Box α) → Array (Box α)
  | upper :: lower :: rest, boxes =>
    sweep gap (lower :: rest) (keepBelow gap upper lower boxes)
  | _, boxes => boxes

/-- Pushes nodes apart that stand closer than `gap`, and keeps their order. -/
def separate (gap : α) (ids : List NodeId) (boxes : Array (Box α)) : Array (Box α) :=
  sweep gap (fromTop boxes ids) boxes

/-- Centres the gates of a column, if it is one of gates, and separates its nodes. -/
def settle (settings : Settings α) (inputsOf : Array (List NodeId)) (boxes : Array (Box α))
    (column : Column α) : Array (Box α) :=
  let centred :=
    if 0 < column.level then
      column.ids.foldl (fun boxes id => centre (inputsOf[id]?.getD []) id boxes) boxes
    else boxes
  separate (settings.minSeparation column.fanIn) column.ids centred

/-! ### The canvas -/

/-- The top of the topmost box. -/
def top? (boxes : List (Box α)) : Option α :=
  match boxes.map (·.y) with
  | [] => none
  | y :: ys => some (ys.foldl smaller y)

/-- Shifts the boxes so that the topmost one stands at the margin, if it stands anywhere. -/
def shiftToMargin (margin : α) (boxes : Array (Box α)) : Array (Box α) :=
  match top? boxes.toList with
  | none => boxes
  | some top =>
    if isFinite top then
      let shift := margin - top
      boxes.map fun box => { box with y := box.y + shift }
    else boxes

/-- The width and the height of a canvas that holds the boxes and a margin. -/
def canvas (settings : Settings α) (boxes : Array (Box α)) : α × α :=
  let right := (boxes.toList.map Box.right).foldl larger zero
  let bottom := (boxes.toList.map Box.bottom).foldl larger zero
  (larger (right + settings.marginX) settings.minWidth,
    larger (bottom + settings.marginY) settings.minHeight)

/-! ### The whole placement -/

/-- The boxes of the nodes, from the nodes that feed each of them and from their metrics. -/
def place (settings : Settings α) (inputsOf : List (List NodeId)) (metrics : List (Metrics α)) :
    Array (Box α) :=
  let columns := columns metrics
  let unplaced := (metrics.map fun m => (⟨zero, zero, m.width, m.height⟩ : Box α)).toArray
  let stacked := columns.foldl (stackColumn settings)
    (spread settings settings.marginX columns unplaced)
  shiftToMargin settings.marginY
    (columns.foldl (settle settings inputsOf.toArray) stacked)

end Schematic.Layout
