import Schematic.Diagram.Validity
import Schematic.Proofs.Layout.Leaves
import Schematic.Proofs.Layout.Translation

/-!
# Margins move the drawing

Before they are placed all boxes stand in one corner, whatever the margins are. But every box is in
a column, and the column gives it a place of its own, which moves with the margins
(`stacked_widen`). The passes behind keep to that, so wider margins move every node of a drawing by
the same distance and change nothing else of it: not the order of the nodes of a level, and no
decision of a sweep (`Formula.margins_move`). All this is of exact arithmetic.
-/

namespace Schematic

/-- The settings with margins that are wider by so much. -/
def Settings.widen (settings : Settings Rat) (dx dy : Rat) : Settings Rat :=
  settings.withMargin (settings.marginX + dx) (settings.marginY + dy)

/-- The node moved to the right and down. -/
def Node.move (dx dy : Rat) (node : Node Rat) : Node Rat := { node with box := node.box.move dx dy }

/-- The box moved to the left side: all that is known of it but how far to the right it is. -/
def Box.atLeft (box : Box Rat) : Box Rat := { box with x := 0 }

variable {dx dy : Rat}

namespace Layout

variable {gap : Rat} {boxes boxes' : Array (Box Rat)} {id : NodeId} (settings : Settings Rat)

/-! ### The first position -/

theorem map_atLeft_moveX (h : boxes'[id]?.map Box.atLeft = boxes[id]?.map Box.atLeft) (x x' : Rat)
    (ids : List NodeId) :
    (ids.foldl (fun boxes id => moveX x' id boxes) boxes')[id]?.map Box.atLeft =
      (ids.foldl (fun boxes id => moveX x id boxes) boxes)[id]?.map Box.atLeft := by
  rw [getElem?_foldl_moveX, getElem?_foldl_moveX]
  split
  · rw [Option.map_map, Option.map_map]
    exact h
  · exact h

/-- A node of a column that starts further to the right is put as far to the right, wherever it
was. -/
theorem getElem?_spread_widen {columns : List (Column Rat)}
    (hid : ∃ column ∈ columns, id ∈ column.ids)
    (h : boxes'[id]?.map Box.atLeft = boxes[id]?.map Box.atLeft) (x : Rat) :
    (spread (settings.widen dx dy) (x + dx) columns boxes')[id]? =
      (spread settings x columns boxes)[id]?.map fun box => { box with x := box.x + dx } := by
  induction columns generalizing x boxes boxes' with
  | nil =>
    obtain ⟨_, hcolumn, -⟩ := hid
    cases hcolumn
  | cons column columns ih =>
    have hnext : x + dx + (column.width + (settings.widen dx dy).columnGap) =
        x + (column.width + settings.columnGap) + dx := add_right_comm ..
    rw [spread, spread, hnext]
    by_cases hlater : ∃ column ∈ columns, id ∈ column.ids
    · exact ih hlater (map_atLeft_moveX h ..) _
    · have hfirst : id ∈ column.ids := (List.exists_mem_cons_iff ..).1 hid |>.resolve_right hlater
      push Not at hlater
      rw [getElem?_spread_of_notMem _ hlater, getElem?_spread_of_notMem _ hlater,
        getElem?_foldl_moveX, if_pos hfirst, getElem?_foldl_moveX, if_pos hfirst]
      have hmoved := congrArg (Option.map fun box : Box Rat => { box with x := x + dx }) h
      simp only [Option.map_map] at hmoved ⊢
      exact hmoved

/-- A node of a stack that starts further down is put as far down, wherever it was. -/
theorem getElem?_stack_move {members : List (NodeId × Metrics Rat)}
    (hid : id ∈ members.map (·.1))
    (h : boxes'[id]?.map Box.atTop =
      (boxes[id]?.map Box.atTop).map fun box => { box with x := box.x + dx }) (y : Rat) :
    (stack gap (y + dy) members boxes')[id]? =
      (stack gap y members boxes)[id]?.map (Box.move dx dy) := by
  induction members generalizing y boxes boxes' with
  | nil => cases hid
  | cons member members ih =>
    obtain ⟨first, m⟩ := member
    rw [stack, stack, add_right_comm y dy]
    by_cases hlater : id ∈ members.map (·.1)
    · refine ih hlater ?_ _
      simp only [moveY, Array.getElem?_modify]
      split
      · simp only [Option.map_map] at h ⊢
        exact h
      · exact h
    · have hfirst : first = id := ((List.mem_cons.1 hid).resolve_right hlater).symm
      rw [getElem?_stack_of_notMem hlater, getElem?_stack_of_notMem hlater, moveY, moveY,
        Array.getElem?_modify, if_pos hfirst, Array.getElem?_modify, if_pos hfirst]
      have hmoved := congrArg (Option.map fun box : Box Rat => { box with y := y + dy }) h
      simp only [Option.map_map] at hmoved ⊢
      exact hmoved

theorem getElem?_foldl_stackColumn_widen {columns : List (Column Rat)}
    (hid : ∃ column ∈ columns, id ∈ column.ids)
    (h : boxes'[id]?.map Box.atTop =
      (boxes[id]?.map Box.atTop).map fun box => { box with x := box.x + dx }) :
    (columns.foldl (stackColumn (settings.widen dx dy)) boxes')[id]? =
      (columns.foldl (stackColumn settings) boxes)[id]?.map (Box.move dx dy) := by
  have hkept : ∀ (settings : Settings Rat) (boxes : Array (Box Rat)) (column : Column Rat),
      (stackColumn settings boxes column)[id]?.map Box.atTop = boxes[id]?.map Box.atTop := by
    intro settings boxes column
    rw [← Array.getElem?_map, map_atTop_stackColumn, Array.getElem?_map]
  induction columns generalizing boxes boxes' with
  | nil =>
    obtain ⟨_, hcolumn, -⟩ := hid
    cases hcolumn
  | cons column columns ih =>
    rw [List.foldl_cons, List.foldl_cons]
    by_cases hlater : ∃ column ∈ columns, id ∈ column.ids
    · apply ih hlater
      rw [hkept, hkept, h]
    · have hfirst : id ∈ column.ids := (List.exists_mem_cons_iff ..).1 hid |>.resolve_right hlater
      push Not at hlater
      rw [getElem?_foldl_stackColumn_of_notMem _ hlater,
        getElem?_foldl_stackColumn_of_notMem _ hlater]
      exact getElem?_stack_move hfirst h _

/-- Wider margins move the boxes where they are put first. -/
theorem stacked_widen (metrics : List (Metrics Rat)) :
    stacked (settings.widen dx dy) metrics = (stacked settings metrics).map (Box.move dx dy) := by
  apply Array.ext_getElem?
  intro id
  rw [Array.getElem?_map]
  by_cases hid : id < metrics.length
  · obtain ⟨column, hcolumn, -, hmem⟩ := exists_column (List.getElem?_eq_getElem hid)
    have hspread : (spread (settings.widen dx dy) (settings.marginX + dx) (columns metrics)
          (unplaced metrics))[id]? =
        (spread settings settings.marginX (columns metrics) (unplaced metrics))[id]?.map
          fun box => { box with x := box.x + dx } :=
      getElem?_spread_widen settings ⟨column, hcolumn, hmem⟩ rfl _
    refine getElem?_foldl_stackColumn_widen settings ⟨column, hcolumn, hmem⟩ ?_
    rw [show (settings.widen dx dy).marginX = settings.marginX + dx from rfl, hspread,
      Option.map_map, Option.map_map]
    rfl
  · rw [Array.getElem?_eq_none (by simpa using hid), Array.getElem?_eq_none (by simpa using hid)]
    rfl

/-! ### Measures -/

theorem nodeMetrics_widen (gate : Gate) (inputs : List (Metrics Rat)) :
    nodeMetrics (settings.widen dx dy) gate inputs = nodeMetrics settings gate inputs := by
  cases gate <;> rfl

/-- Nodes are measured without regard to the margins. -/
theorem metrics_widen (operations : List Operation) :
    metrics (settings.widen dx dy) operations = metrics settings operations := by
  have hfrom : ∀ first, metricsFrom (settings.widen dx dy) first operations =
      metricsFrom settings first operations := by
    induction operations with
    | nil => exact fun _ => rfl
    | cons operation operations ih =>
      intro first
      rw [metricsFrom, metricsFrom, ih, nodeMetrics_widen]
  exact hfrom 0

/-! ### The whole placement -/

theorem settle_widen (inputsOf : Array (List NodeId)) :
    settle (settings.widen dx dy) inputsOf = settle settings inputsOf := rfl

theorem columnSteps_widen (inputsOf : Array (List NodeId)) (columns : List (Column Rat))
    (boxes : Array (Box Rat)) :
    columnSteps (settings.widen dx dy) inputsOf columns boxes =
      columnSteps settings inputsOf columns boxes := by
  induction columns generalizing boxes with
  | nil => rfl
  | cons column columns ih =>
    rw [columnSteps, columnSteps, ih]
    rfl

/-- Wider margins move every box of a placement, and the columns are settled in the same steps. -/
theorem place_widen {inputsOf : List (List NodeId)} {metrics : List (Metrics Rat)}
    (hinputs : ∀ inputs ∈ inputsOf, ∀ input ∈ inputs, input < metrics.length) :
    place (settings.widen dx dy) inputsOf metrics =
        (place settings inputsOf metrics).map (Box.move dx dy) ∧
      columnSteps (settings.widen dx dy) inputsOf.toArray (columns metrics)
          (stacked (settings.widen dx dy) metrics) =
        columnSteps settings inputsOf.toArray (columns metrics) (stacked settings metrics) := by
  have hinputs' : ∀ inputs ∈ inputsOf.toArray, ∀ input ∈ inputs, input < metrics.length := by
    simpa using hinputs
  obtain ⟨hsettled, hsteps⟩ := foldl_settle_map_move hinputs' settings
    (size_stacked settings metrics) (columns metrics)
  constructor
  · rw [place_eq, place_eq, stacked_widen, settle_widen, hsettled]
    exact shiftToMargin_map_move ..
  · rw [stacked_widen, columnSteps_widen, hsteps]

end Layout

/-! ### Drawings -/

/-- The diagram moved to the right and down: every node is moved, with all else of it as it was, and
the wires are the same. -/
structure Diagram.Moves (dx dy : Rat) (diagram moved : Diagram Rat) : Prop where
  /-- Every node is moved. -/
  nodes : moved.nodes = diagram.nodes.map (Node.move dx dy)
  /-- The wires are the same. -/
  wires : moved.wires = diagram.wires
  /-- The same node is the root. -/
  root : moved.root = diagram.root
  /-- The diagrams have been laid out from the same. -/
  origin : moved.origin = diagram.origin

/-- The nodes of each level, in the order in which they stand from the top down. -/
def Diagram.levelsFromTop (diagram : Diagram Rat) : List (Nat × List NodeId) :=
  diagram.levels.map fun (level, ids) =>
    (level, (Diagram.fromTop (ids.filterMap diagram.node?)).map (·.id))

theorem Layout.toNodes_map_move (first : NodeId) (operations : List Operation)
    (metrics : List (Metrics Rat)) (boxes : List (Box Rat)) :
    toNodes first operations metrics (boxes.map (Box.move dx dy)) =
      (toNodes first operations metrics boxes).map (Node.move dx dy) := by
  induction operations generalizing first metrics boxes with
  | nil => rfl
  | cons operation operations ih =>
    cases metrics with
    | nil => rfl
    | cons m metrics =>
      cases boxes with
      | nil => rfl
      | cons box boxes =>
        rw [List.map_cons, toNodes, ih, toNodes, List.map_cons]
        rfl

theorem Diagram.fromTop_map_move (nodes : List (Node Rat)) :
    fromTop (nodes.map (Node.move dx dy)) = (fromTop nodes).map (Node.move dx dy) :=
  (List.map_mergeSort fun a _ b _ =>
    congrArg Ordering.isLE (Layout.order_add_right a.box.y b.box.y).symm).symm

theorem Diagram.Moves.levelsFromTop_eq {diagram moved : Diagram Rat}
    (h : diagram.Moves dx dy moved) : moved.levelsFromTop = diagram.levelsFromTop := by
  have hlevels : moved.levels = diagram.levels := by
    rw [levels, h.nodes, Array.toList_map, List.map_map]
    rfl
  have hnodes : ∀ ids : List NodeId, ids.filterMap moved.node? =
      (ids.filterMap diagram.node?).map (Node.move dx dy) := by
    intro ids
    rw [List.map_filterMap]
    congr 1
    funext id
    rw [node?, h.nodes, Array.getElem?_map, node?]
  simp only [levelsFromTop, hlevels, hnodes, fromTop_map_move, List.map_map]
  rfl

namespace Formula

open Layout

variable (f : Formula) (settings : Settings Rat)

/-- What feeds a node is there. -/
theorem lt_of_mem_inputs_operations :
    ∀ inputs ∈ (operations f).map (·.inputs), ∀ input ∈ inputs,
      input < (metrics settings (operations f)).length := by
  intro inputs hmem input hinput
  obtain ⟨operation, hoperation, rfl⟩ := List.mem_map.1 hmem
  obtain ⟨id, hid⟩ := List.mem_iff_getElem?.1 hoperation
  rw [getElem?_operations, Option.map_eq_some_iff] at hid
  obtain ⟨part, hpart, rfl⟩ := hid
  rw [inputs_operationAt] at hinput
  obtain ⟨below, hbelow⟩ := mem_operandPlaces_iff.1 hinput
  have hoperand : f.preOrder[input]? = some below := of_mem_zip_operandPlaces hpart hbelow
  rw [length_metrics, length_operations]
  exact (List.getElem?_eq_some_iff.1 hoperand).1

theorem boxes_widen : f.boxes (settings.widen dx dy) = (f.boxes settings).map (Box.move dx dy) := by
  rw [boxes, metrics_widen]
  exact (place_widen settings (f.lt_of_mem_inputs_operations settings)).1

theorem moves_layout : (f.layout settings).Moves dx dy (f.layout (settings.widen dx dy)) := by
  refine ⟨?_, rfl, rfl, rfl⟩
  have hnodes : ∀ settings : Settings Rat, (f.layout settings).nodes =
      (toNodes 0 (operations f) (metrics settings (operations f))
        (f.boxes settings).toList).toArray := fun _ => rfl
  rw [hnodes, hnodes, metrics_widen, boxes_widen, Array.toList_map, toNodes_map_move,
    List.map_toArray]

/-- **Other margins only move the drawing**: margins that are wider by `dx` and `dy` move every node
by as much and change nothing else of it, and no wire; the nodes of every level stand in the same
order from the top down, and in every column the same nodes are pushed down. So it is in exact
arithmetic, whatever the settings. -/
theorem margins_move (dx dy : Rat) :
    (f.layout settings).Moves dx dy (f.layout (settings.widen dx dy)) ∧
      (f.layout (settings.widen dx dy)).levelsFromTop = (f.layout settings).levelsFromTop ∧
      f.decisions (settings.widen dx dy) = f.decisions settings := by
  have hmoves : (f.layout settings).Moves dx dy (f.layout (settings.widen dx dy)) :=
    f.moves_layout settings
  refine ⟨hmoves, hmoves.levelsFromTop_eq, ?_⟩
  simp only [decisions, metrics_widen]
  exact (place_widen settings (f.lt_of_mem_inputs_operations settings)).2

end Formula

end Schematic
