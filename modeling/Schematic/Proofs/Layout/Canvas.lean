import Mathlib.Data.List.Basic
import Mathlib.Tactic.Linarith
import Schematic.Proofs.Layout.Columns
import Schematic.Proofs.Layout.Passes
import Schematic.Proofs.Scalar

/-!
# Every box lies on the canvas

The columns are spread from the left margin on (`marginX_le_x_place`), the topmost box stands at the
top margin (`y_place`), and the canvas leaves the margins on the
other two sides (`right_add_marginX_le`, `bottom_add_marginY_le`).
-/

namespace Schematic.Layout

variable (settings : Settings Rat) {boxes : Array (Box Rat)} {box : Box Rat}

/-! ### The left margin -/

theorem getElem?_foldl_moveX (x : Rat) (ids : List NodeId) (boxes : Array (Box Rat)) (id : NodeId) :
    (ids.foldl (fun boxes id => moveX x id boxes) boxes)[id]? =
      if id ∈ ids then boxes[id]?.map fun box => { box with x := x } else boxes[id]? := by
  induction ids generalizing boxes with
  | nil => rfl
  | cons first ids ih =>
    rw [List.foldl_cons, ih, moveX, Array.getElem?_modify]
    by_cases heq : first = id
    · simp [heq, Function.comp_def]
    · simp [heq, Ne.symm heq]

theorem getElem?_spread_of_notMem {columns : List (Column Rat)} {id : NodeId}
    (h : ∀ column ∈ columns, id ∉ column.ids) (x : Rat) (boxes : Array (Box Rat)) :
    (spread settings x columns boxes)[id]? = boxes[id]? := by
  induction columns generalizing x boxes with
  | nil => rfl
  | cons column columns ih =>
    rw [List.forall_mem_cons] at h
    rw [spread, ih h.2, getElem?_foldl_moveX, if_neg h.1]

theorem width_nonneg (column : Column Rat) : 0 ≤ column.width :=
  Scalar.le_foldl_larger List.mem_cons_self

/-- The nodes of the first column start where it does. -/
theorem x_spread_of_mem_ids {column : Column Rat} {columns : List (Column Rat)} {id : NodeId}
    (hid : id ∈ column.ids) (hlater : ∀ column ∈ columns, id ∉ column.ids) {x : Rat}
    (h : (spread settings x (column :: columns) boxes)[id]? = some box) : box.x = x := by
  rw [spread, getElem?_spread_of_notMem settings hlater, getElem?_foldl_moveX, if_pos hid] at h
  obtain ⟨old, -, rfl⟩ := Option.map_eq_some_iff.1 h
  rfl

/-- No column is spread to the left of the first one. -/
theorem le_x_spread (hgap : 0 ≤ settings.columnGap) {columns : List (Column Rat)} {id : NodeId}
    (hid : ∃ column ∈ columns, id ∈ column.ids) {x : Rat}
    (h : (spread settings x columns boxes)[id]? = some box) : x ≤ box.x := by
  induction columns generalizing x boxes with
  | nil =>
    obtain ⟨_, hmem, -⟩ := hid
    cases hmem
  | cons column columns ih =>
    -- A node of a later column is moved again, further to the right; any other one stays.
    by_cases hlater : ∃ column ∈ columns, id ∈ column.ids
    · have hwidth := width_nonneg column
      have hle := ih hlater h
      linarith
    · have hfirst : id ∈ column.ids := (List.exists_mem_cons_iff ..).1 hid |>.resolve_right hlater
      push Not at hlater
      exact (x_spread_of_mem_ids settings hfirst hlater h).ge

/-! ### The top margin -/

theorem top?_eq (boxes : List (Box Rat)) : top? boxes = (boxes.map (·.y)).min? := by
  rw [top?, show (Scalar.smaller : Rat → Rat → Rat) = min from funext₂ Scalar.smaller_rat]
  cases boxes with
  | nil => rfl
  | cons box boxes => exact List.min?_cons'.symm

theorem shiftToMargin_eq (margin : Rat) {boxes : Array (Box Rat)} {top : Rat}
    (h : top? boxes.toList = some top) :
    shiftToMargin margin boxes =
      boxes.map fun box => { box with y := box.y + (margin - top) } := by
  rw [shiftToMargin, h]
  exact if_pos (Scalar.isFinite_rat top)

/-- A shift of the drawing moves every box by the same distance. -/
theorem exists_shift (margin : Rat) (boxes : Array (Box Rat)) :
    ∃ shift : Rat, ∀ id : NodeId, (shiftToMargin margin boxes)[id]? =
      boxes[id]?.map fun box => { box with y := box.y + shift } := by
  cases htop : top? boxes.toList with
  | none =>
    refine ⟨0, fun id => ?_⟩
    rw [shiftToMargin, htop]
    simp
  | some top =>
    refine ⟨margin - top, fun id => ?_⟩
    rw [shiftToMargin_eq margin htop, Array.getElem?_map]

/-- The topmost box is shifted to the margin, and no box above it. -/
theorem y_shiftToMargin (margin : Rat) (hsize : 0 < boxes.size) :
    (∃ box ∈ shiftToMargin margin boxes, box.y = margin) ∧
      ∀ box ∈ shiftToMargin margin boxes, margin ≤ box.y := by
  have hne : boxes.toList.map (·.y) ≠ [] := by
    rw [Ne, List.map_eq_nil_iff, ← List.length_eq_zero_iff, Array.length_toList]
    exact hsize.ne'
  obtain ⟨top, htop⟩ := Option.ne_none_iff_exists'.1 (mt List.min?_eq_none_iff.1 hne)
  obtain ⟨hmem, hle⟩ := List.min?_eq_some_iff.1 htop
  rw [shiftToMargin_eq margin ((top?_eq boxes.toList).trans htop)]
  constructor
  · obtain ⟨topmost, htopmost, heq⟩ := List.mem_map.1 hmem
    refine ⟨_, Array.mem_map_of_mem (Array.mem_toList_iff.1 htopmost), ?_⟩
    dsimp only
    linarith
  · intro box hbox
    obtain ⟨old, hold, rfl⟩ := Array.mem_map.1 hbox
    have hold' := hle old.y (List.mem_map_of_mem (Array.mem_toList_iff.2 hold))
    dsimp only
    linarith

/-! ### The placed boxes -/

/-- In a drawing with a node the topmost box stands at the margin. -/
theorem y_place (inputsOf : List (List NodeId)) {metrics : List (Metrics Rat)}
    (hmetrics : metrics ≠ []) :
    (∃ box ∈ place settings inputsOf metrics, box.y = settings.marginY) ∧
      ∀ box ∈ place settings inputsOf metrics, settings.marginY ≤ box.y := by
  rw [place_eq]
  refine y_shiftToMargin settings.marginY ?_
  rw [size_of_map_atTop (map_atTop_foldl_settle ..), size_stacked]
  exact List.length_pos_iff.2 hmetrics

/-- A placed box stands as far to the right as it was spread. -/
theorem exists_spread_of_place {inputsOf : List (List NodeId)} {metrics : List (Metrics Rat)}
    {id : NodeId} (h : (place settings inputsOf metrics)[id]? = some box) :
    ∃ old, (spread settings settings.marginX (columns metrics) (unplaced metrics))[id]? = some old ∧
      old.x = box.x := by
  have hflat := congrArg (·[id]?)
    ((map_atTop_place settings inputsOf metrics).trans (map_atTop_stacked settings metrics))
  simp only [Array.getElem?_map, h, Option.map_some] at hflat
  obtain ⟨old, hold, heq⟩ := Option.map_eq_some_iff.1 hflat.symm
  have hsame : old.atTop.x = box.atTop.x := congrArg Box.x heq
  exact ⟨old, hold, hsame⟩

/-- No box of a drawing reaches into the left margin. -/
theorem marginX_le_x_place (hgap : 0 ≤ settings.columnGap) (inputsOf : List (List NodeId))
    (metrics : List (Metrics Rat)) (h : box ∈ place settings inputsOf metrics) :
    settings.marginX ≤ box.x := by
  obtain ⟨id, hid⟩ := Array.mem_iff_getElem?.1 h
  obtain ⟨old, hold, hsame⟩ := exists_spread_of_place settings hid
  have hlt : id < metrics.length := by
    rw [← size_place settings inputsOf]
    exact (Array.getElem?_eq_some_iff.1 hid).1
  obtain ⟨column, hcolumn, -, hmem⟩ := exists_column (List.getElem?_eq_getElem hlt)
  exact (le_x_spread settings hgap ⟨column, hcolumn, hmem⟩ hold).trans_eq hsame

/-! ### The canvas -/

/-- The canvas leaves a margin to the right of every box. -/
theorem right_add_marginX_le (h : box ∈ boxes) :
    box.right + settings.marginX ≤ (canvas settings boxes).1 := by
  have hright : box.right ≤ (boxes.toList.map Box.right).foldl Scalar.larger Scalar.zero :=
    Scalar.le_foldl_larger (List.mem_cons_of_mem _ (List.mem_map_of_mem (Array.mem_toList_iff.2 h)))
  rw [canvas, Scalar.larger_rat]
  exact le_max_of_le_left (by linarith)

/-- The canvas leaves a margin below every box. -/
theorem bottom_add_marginY_le (h : box ∈ boxes) :
    box.bottom + settings.marginY ≤ (canvas settings boxes).2 := by
  have hbottom : box.bottom ≤ (boxes.toList.map Box.bottom).foldl Scalar.larger Scalar.zero :=
    Scalar.le_foldl_larger (List.mem_cons_of_mem _ (List.mem_map_of_mem (Array.mem_toList_iff.2 h)))
  simp only [canvas, Scalar.larger_rat]
  exact le_max_of_le_left (by linarith)

end Schematic.Layout
