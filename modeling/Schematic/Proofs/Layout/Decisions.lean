import Schematic.Proofs.Layout.Nodes

/-!
# The decisions of a separation

Where a column is settled, a sweep compares every node with the one before it, from the top down,
and decides whether to push it. These decisions are written down step by step (`sweepSteps`,
`columnSteps`), and they are all that a sweep does: to push the nodes for which it is so decided
gives what the sweep gives (`sweep_eq_foldl_replay`), in every column (`foldl_settle_eq_replay`).
-/

namespace Schematic

variable {α : Type} [Scalar α]

namespace Layout

/-- A step of a sweep, from a node to the one behind it. -/
structure Step where
  /-- The node that stands above. -/
  upper : NodeId
  /-- The node that stands below. -/
  lower : NodeId
  /-- The lower node is pushed down. -/
  pushed : Bool
  deriving DecidableEq, Repr

/-! ### One step -/

/-- The lower node stands too close below the upper one. -/
def tooClose (gap : α) (upper lower : NodeId) (boxes : Array (Box α)) : Bool :=
  match boxes[upper]?, boxes[lower]? with
  | some above, some below => decide (below.y < above.bottom + gap)
  | _, _ => false

/-- Puts the lower node `gap` below the upper one. -/
def putBelow (gap : α) (upper lower : NodeId) (boxes : Array (Box α)) : Array (Box α) :=
  match boxes[upper]? with
  | none => boxes
  | some above => boxes.modify lower fun box => { box with y := above.bottom + gap }

/-- Pushes the lower node down if that has been decided. -/
def Step.replay (gap : α) (boxes : Array (Box α)) (step : Step) : Array (Box α) :=
  if step.pushed then putBelow gap step.upper step.lower boxes else boxes

/-- A node is pushed down if it stands too close. -/
theorem keepBelow_eq_replay (gap : α) (upper lower : NodeId) (boxes : Array (Box α)) :
    keepBelow gap upper lower boxes =
      Step.replay gap boxes ⟨upper, lower, tooClose gap upper lower boxes⟩ := by
  cases hupper : boxes[upper]? with
  | none =>
    simp only [keepBelow, Step.replay, tooClose, hupper, Bool.false_eq_true, if_false]
  | some above =>
    apply Array.ext_getElem?
    intro id
    cases hlower : boxes[lower]? with
    | none =>
      simp only [keepBelow, Step.replay, tooClose, hupper, hlower, Bool.false_eq_true, if_false,
        Array.getElem?_modify]
      split
      · next heq => rw [← heq, hlower, Option.map_none]
      · rfl
    | some below =>
      simp only [keepBelow, Step.replay, tooClose, putBelow, hupper, hlower, decide_eq_true_eq,
        Array.getElem?_modify]
      by_cases hclose : below.y < above.bottom + gap
      · simp only [if_pos hclose, Array.getElem?_modify]
        split
        · next heq => rw [← heq, hlower, Option.map_some, Option.map_some, if_pos hclose]
        · rfl
      · rw [if_neg hclose]
        split
        · next heq => rw [← heq, hlower, Option.map_some, if_neg hclose]
        · rfl

/-! ### A sweep -/

/-- The steps of a sweep. -/
def sweepSteps (gap : α) : List NodeId → Array (Box α) → List Step
  | upper :: lower :: rest, boxes =>
    ⟨upper, lower, tooClose gap upper lower boxes⟩ ::
      sweepSteps gap (lower :: rest) (keepBelow gap upper lower boxes)
  | _, _ => []

/-- A sweep does what its steps decide. -/
theorem sweep_eq_foldl_replay (gap : α) (ids : List NodeId) (boxes : Array (Box α)) :
    sweep gap ids boxes = (sweepSteps gap ids boxes).foldl (Step.replay gap) boxes := by
  fun_induction sweepSteps gap ids boxes with
  | case1 upper lower rest boxes ih =>
    rw [sweep, ih, List.foldl_cons, keepBelow_eq_replay]
  | case2 ids boxes hshort =>
    rcases ids with - | ⟨upper, - | ⟨lower, rest⟩⟩
    · rfl
    · rfl
    · exact absurd rfl (hshort upper lower rest)

/-! ### The columns -/

/-- The steps in which the nodes of a column are separated. -/
def settleSteps (settings : Settings α) (inputsOf : Array (List NodeId)) (boxes : Array (Box α))
    (column : Column α) : List Step :=
  let centred := centreColumn inputsOf boxes column
  sweepSteps (settings.minSeparation column.fanIn) (fromTop centred column.ids) centred

/-- A column that has been centred is settled by what the steps decide. -/
theorem settle_eq_foldl_replay (settings : Settings α) (inputsOf : Array (List NodeId))
    (boxes : Array (Box α)) (column : Column α) :
    settle settings inputsOf boxes column =
      (settleSteps settings inputsOf boxes column).foldl
        (Step.replay (settings.minSeparation column.fanIn)) (centreColumn inputsOf boxes column) :=
  sweep_eq_foldl_replay ..

/-- The steps in which columns are settled, one after the other. -/
def columnSteps (settings : Settings α) (inputsOf : Array (List NodeId)) :
    List (Column α) → Array (Box α) → List (List Step)
  | [], _ => []
  | column :: columns, boxes =>
    settleSteps settings inputsOf boxes column ::
      columnSteps settings inputsOf columns (settle settings inputsOf boxes column)

/-- Columns are settled by centring each of them and doing what its steps decide. -/
theorem foldl_settle_eq_replay (settings : Settings α) (inputsOf : Array (List NodeId))
    (columns : List (Column α)) (boxes : Array (Box α)) :
    columns.foldl (settle settings inputsOf) boxes =
      (columns.zip (columnSteps settings inputsOf columns boxes)).foldl
        (fun boxes settled =>
          settled.2.foldl (Step.replay (settings.minSeparation settled.1.fanIn))
            (centreColumn inputsOf boxes settled.1)) boxes := by
  induction columns generalizing boxes with
  | nil => rfl
  | cons column columns ih =>
    rw [List.foldl_cons, ih, columnSteps, List.zip_cons_cons, List.foldl_cons,
      settle_eq_foldl_replay]

end Layout

/-- The steps in which the columns of a layout are settled. -/
def Formula.decisions (f : Formula) (settings : Settings α) : List (List Layout.Step) :=
  let metrics := Layout.metrics settings (Layout.operations f)
  Layout.columnSteps settings ((Layout.operations f).map (·.inputs)).toArray
    (Layout.columns metrics) (Layout.stacked settings metrics)

end Schematic
