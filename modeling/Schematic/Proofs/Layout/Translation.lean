import Schematic.Proofs.Layout.Centring
import Schematic.Proofs.Layout.Decisions

/-!
# Passes over moved boxes

A pass does to boxes that have been moved what it does to the boxes, and moves the outcome along.
Means move with what they are taken of, while distances and the order from the top down stay; so the
same nodes are centred and pushed, and settling columns commutes with a move
(`foldl_settle_map_move`). A shift to a margin does if the margin moves as far
(`shiftToMargin_map_move`). All this is of exact arithmetic.
-/

namespace Schematic

/-! ### Moves -/

/-- The box moved to the right and down. -/
def Box.move (dx dy : Rat) (box : Box Rat) : Box Rat :=
  { box with x := box.x + dx, y := box.y + dy }

variable {dx dy : Rat}

@[simp] theorem Box.y_move (box : Box Rat) : (box.move dx dy).y = box.y + dy := rfl

@[simp] theorem Box.bottom_move (box : Box Rat) : (box.move dx dy).bottom = box.bottom + dy :=
  add_right_comm ..

@[simp] theorem Box.centreY_move (box : Box Rat) : (box.move dx dy).centreY = box.centreY + dy :=
  add_right_comm ..

namespace Layout

variable {boxes : Array (Box Rat)} {inputs : List NodeId}

/-! ### Separating -/

theorem order_add_right (a b : Rat) : Scalar.order (a + dy) (b + dy) = Scalar.order a b := by
  show (if a + dy < b + dy then Ordering.lt else if b + dy < a + dy then .gt else .eq) =
    if a < b then Ordering.lt else if b < a then .gt else .eq
  simp only [add_lt_add_iff_right]

/-- Moved nodes stand in the same order. -/
theorem fromTop_map_move (boxes : Array (Box Rat)) (ids : List NodeId) :
    fromTop (boxes.map (Box.move dx dy)) ids = fromTop boxes ids := by
  have hplaced : (ids.filterMap fun id => (boxes.map (Box.move dx dy))[id]?.map fun box =>
        (box.y, id)) =
      (ids.filterMap fun id => boxes[id]?.map fun box => (box.y, id)).map fun placed =>
        (placed.1 + dy, placed.2) := by
    simp [List.map_filterMap, Function.comp_def]
  rw [fromTop, fromTop, hplaced, ← List.map_mergeSort fun a _ b _ => ?_, List.map_map]
  · rfl
  · rw [order_add_right]

theorem tooClose_map_move (gap : Rat) (upper lower : NodeId) (boxes : Array (Box Rat)) :
    tooClose gap upper lower (boxes.map (Box.move dx dy)) = tooClose gap upper lower boxes := by
  simp only [tooClose, Array.getElem?_map]
  cases boxes[upper]? with
  | none => rfl
  | some above =>
    cases boxes[lower]? with
    | none => rfl
    | some below =>
      have hclose : below.y + dy < above.bottom + dy + gap ↔ below.y < above.bottom + gap := by
        rw [add_right_comm, add_lt_add_iff_right]
      simp only [Option.map_some, Box.y_move, Box.bottom_move, hclose]

/-- A step that has been decided does the same to moved boxes. -/
theorem replay_map_move (gap : Rat) (boxes : Array (Box Rat)) (step : Step) :
    step.replay gap (boxes.map (Box.move dx dy)) =
      (step.replay gap boxes).map (Box.move dx dy) := by
  unfold Step.replay
  split
  · simp only [putBelow, Array.getElem?_map]
    cases boxes[step.upper]? with
    | none => rfl
    | some above =>
      have hlowest : (above.move dx dy).bottom + gap = above.bottom + gap + dy := by
        rw [Box.bottom_move, add_right_comm]
      refine modify_map (fun box => ?_) step.lower boxes
      rw [hlowest]
      rfl
  · rfl

theorem keepBelow_map_move (gap : Rat) (upper lower : NodeId) (boxes : Array (Box Rat)) :
    keepBelow gap upper lower (boxes.map (Box.move dx dy)) =
      (keepBelow gap upper lower boxes).map (Box.move dx dy) := by
  rw [keepBelow_eq_replay, keepBelow_eq_replay, tooClose_map_move, replay_map_move]

/-- Moved nodes are swept in the same steps. -/
theorem sweepSteps_map_move (gap : Rat) (ids : List NodeId) (boxes : Array (Box Rat)) :
    sweepSteps gap ids (boxes.map (Box.move dx dy)) = sweepSteps gap ids boxes := by
  fun_induction sweepSteps gap ids boxes with
  | case1 upper lower rest boxes ih => rw [sweepSteps, keepBelow_map_move, ih, tooClose_map_move]
  | case2 ids boxes hshort => exact sweepSteps.eq_2 gap _ _ hshort

theorem sweep_map_move (gap : Rat) (ids : List NodeId) (boxes : Array (Box Rat)) :
    sweep gap ids (boxes.map (Box.move dx dy)) = (sweep gap ids boxes).map (Box.move dx dy) := by
  rw [sweep_eq_foldl_replay, sweepSteps_map_move, sweep_eq_foldl_replay]
  exact List.foldl_hom _ fun boxes step => replay_map_move gap boxes step

theorem separate_map_move (gap : Rat) (ids : List NodeId) (boxes : Array (Box Rat)) :
    separate gap ids (boxes.map (Box.move dx dy)) =
      (separate gap ids boxes).map (Box.move dx dy) := by
  rw [separate, fromTop_map_move, sweep_map_move, separate]

/-! ### Centring -/

/-- Where all that feeds a node is there, its mean moves along. -/
theorem middle_map_move (hne : inputs ≠ []) (hlt : ∀ input ∈ inputs, input < boxes.size) :
    middle (boxes.map (Box.move dx dy)) inputs = middle boxes inputs + dy := by
  refine middle_shift hne hlt fun id => ?_
  simp only [Array.getElem?_map, Option.map_map, Function.comp_def, Box.centreY_move]

theorem centre_map_move (hlt : ∀ input ∈ inputs, input < boxes.size) (id : NodeId) :
    centre inputs id (boxes.map (Box.move dx dy)) =
      (centre inputs id boxes).map (Box.move dx dy) := by
  by_cases hne : inputs = []
  · subst hne
    rfl
  · rw [centre_eq hne, centre_eq hne, middle_map_move hne hlt]
    refine modify_map (fun box => ?_) id boxes
    simp only [Box.move, add_sub_right_comm]

section

variable {inputsOf : Array (List NodeId)} {size : Nat}
  (hinputs : ∀ inputs ∈ inputsOf, ∀ input ∈ inputs, input < size)

include hinputs

theorem centreColumn_map_move (hsize : boxes.size = size) (column : Column Rat) :
    centreColumn inputsOf (boxes.map (Box.move dx dy)) column =
      (centreColumn inputsOf boxes column).map (Box.move dx dy) := by
  unfold centreColumn
  split
  · induction column.ids generalizing boxes with
    | nil => rfl
    | cons id ids ih =>
      have hlt : ∀ input ∈ inputsOf[id]?.getD [], input < boxes.size := by
        intro input hinput
        cases hfed : inputsOf[id]? with
        | none =>
          rw [hfed] at hinput
          cases hinput
        | some inputs =>
          rw [hfed] at hinput
          exact hsize ▸ hinputs inputs (Array.mem_of_getElem? hfed) input hinput
      have hkept : (centre (inputsOf[id]?.getD []) id boxes).size = size :=
        (size_of_map_atTop (map_atTop_centre _ id boxes)).trans hsize
      rw [List.foldl_cons, centre_map_move hlt, ih hkept, List.foldl_cons]
  · rfl

/-- Settling a column commutes with a move. -/
theorem settle_map_move (settings : Settings Rat) (hsize : boxes.size = size)
    (column : Column Rat) :
    settle settings inputsOf (boxes.map (Box.move dx dy)) column =
      (settle settings inputsOf boxes column).map (Box.move dx dy) := by
  rw [settle_eq, centreColumn_map_move hinputs hsize, separate_map_move, settle_eq]

theorem settleSteps_map_move (settings : Settings Rat) (hsize : boxes.size = size)
    (column : Column Rat) :
    settleSteps settings inputsOf (boxes.map (Box.move dx dy)) column =
      settleSteps settings inputsOf boxes column := by
  simp only [settleSteps, centreColumn_map_move hinputs hsize, fromTop_map_move,
    sweepSteps_map_move]

/-- So does settling several columns, and the same is decided in each of them. -/
theorem foldl_settle_map_move (settings : Settings Rat) (hsize : boxes.size = size)
    (columns : List (Column Rat)) :
    columns.foldl (settle settings inputsOf) (boxes.map (Box.move dx dy)) =
        (columns.foldl (settle settings inputsOf) boxes).map (Box.move dx dy) ∧
      columnSteps settings inputsOf columns (boxes.map (Box.move dx dy)) =
        columnSteps settings inputsOf columns boxes := by
  induction columns generalizing boxes with
  | nil => exact ⟨rfl, rfl⟩
  | cons column columns ih =>
    have hkept : (settle settings inputsOf boxes column).size = size :=
      (size_of_map_atTop (map_atTop_settle settings inputsOf boxes column)).trans hsize
    rw [List.foldl_cons, List.foldl_cons, columnSteps, columnSteps,
      settle_map_move hinputs settings hsize, settleSteps_map_move hinputs settings hsize]
    obtain ⟨hfold, hsteps⟩ := ih hkept
    exact ⟨hfold, congrArg _ hsteps⟩

end

/-! ### The top margin -/

theorem top?_map_move (boxes : List (Box Rat)) :
    top? (boxes.map (Box.move dx dy)) = (top? boxes).map (· + dy) := by
  cases boxes with
  | nil => rfl
  | cons box boxes =>
    have hleast : ∀ ys : List Rat, ∀ y, (ys.map (· + dy)).foldl Scalar.smaller (y + dy) =
        ys.foldl Scalar.smaller y + dy := by
      intro ys y
      rw [List.foldl_map]
      refine List.foldl_hom (· + dy) fun a b => ?_
      rw [Scalar.smaller_rat, Scalar.smaller_rat, min_add_add_right]
    simp only [top?, List.map_cons, List.map_map, Option.map_some, ← hleast]
    rfl

/-- Moved boxes are shifted to a margin that has moved as far. -/
theorem shiftToMargin_map_move (margin : Rat) (boxes : Array (Box Rat)) :
    shiftToMargin (margin + dy) (boxes.map (Box.move dx dy)) =
      (shiftToMargin margin boxes).map (Box.move dx dy) := by
  have hmoved : top? (boxes.map (Box.move dx dy)).toList = (top? boxes.toList).map (· + dy) := by
    rw [Array.toList_map, top?_map_move]
  cases htop : top? boxes.toList with
  | none =>
    rw [htop] at hmoved
    rw [shiftToMargin, hmoved, shiftToMargin, htop]
    rfl
  | some top =>
    rw [htop] at hmoved
    rw [shiftToMargin_eq _ hmoved, shiftToMargin_eq _ htop, Array.map_map, Array.map_map]
    congr 1
    funext box
    simp only [Function.comp_apply, Box.move, add_sub_add_right_eq_sub, add_right_comm]

end Layout

end Schematic
