import Schematic.Layout.Metrics
import Schematic.Proofs.Layout.Settings
import Schematic.Proofs.Levels

/-!
# Levels and sizes of nodes

The metrics of a node follow from those of the nodes it reads, provided that they stand behind it
(`getElem?_metrics`). So a gate is on a higher level than what it reads (`level_lt_of_mem_inputs`).
In exact arithmetic every node has a height where the settings are regular (`height_pos`).
-/

namespace Schematic

namespace Layout

variable {α : Type} [Scalar α] (settings : Settings α)

/-! ### Metrics from metrics -/

@[simp] theorem length_metricsFrom (first : NodeId) (operations : List Operation) :
    (metricsFrom settings first operations).length = operations.length := by
  induction operations generalizing first with
  | nil => rfl
  | cons operation operations ih => rw [metricsFrom, List.length_cons, ih, List.length_cons]

@[simp] theorem length_metrics (operations : List Operation) :
    (metrics settings operations).length = operations.length :=
  length_metricsFrom settings 0 operations

theorem getElem?_metricsFrom (first i : Nat) (operations : List Operation) :
    (metricsFrom settings first operations)[i]? = operations[i]?.map fun operation =>
      nodeMetrics settings operation.gate (operation.inputs.filterMap fun input =>
        if first + i < input then (metricsFrom settings first operations)[input - first]?
        else none) := by
  induction operations generalizing first i with
  | nil => rfl
  | cons operation operations ih =>
    -- An input behind the node is at the same place whether one counts from the first or the next.
    have hlater : ∀ k : Nat, (fun input => if first + k < input then
          (metricsFrom settings first (operation :: operations))[input - first]? else none) =
        fun input => if first + k < input then
          (metricsFrom settings (first + 1) operations)[input - (first + 1)]? else none := by
      intro k
      funext input
      split
      · next hlt =>
        obtain ⟨next, rfl⟩ : ∃ next, input = first + (next + 1) := ⟨input - first - 1, by omega⟩
        rw [metricsFrom, Nat.add_sub_cancel_left, List.getElem?_cons_succ]
        congr 1
        omega
      · rfl
    rw [hlater i]
    cases i with
    | zero => rfl
    | succ i =>
      rw [metricsFrom, List.getElem?_cons_succ, List.getElem?_cons_succ, ih, Nat.add_right_comm,
        Nat.add_assoc]

/-- The metrics of a node follow from those of what it reads. -/
theorem getElem?_metrics (id : NodeId) (operations : List Operation) :
    (metrics settings operations)[id]? = operations[id]?.map fun operation =>
      nodeMetrics settings operation.gate (operation.inputs.filterMap fun input =>
        if id < input then (metrics settings operations)[input]? else none) := by
  have h := getElem?_metricsFrom settings 0 id operations
  simp only [Nat.zero_add, Nat.sub_zero] at h
  exact h

/-! ### Levels -/

/-- A gate is on a higher level than what it reads. -/
theorem level_lt_of_mem_inputs {operations : List Operation} {id input : NodeId}
    {operation : Operation} {m below : Metrics α} (hoperation : operations[id]? = some operation)
    (hinput : input ∈ operation.inputs) (hlt : id < input)
    (hm : (metrics settings operations)[id]? = some m)
    (hbelow : (metrics settings operations)[input]? = some below) : below.level < m.level := by
  rw [getElem?_metrics, hoperation, Option.map_some, Option.some.injEq] at hm
  have hmem : below ∈ operation.inputs.filterMap fun input =>
      if id < input then (metrics settings operations)[input]? else none := by
    rw [List.mem_filterMap]
    exact ⟨input, hinput, by rw [if_pos hlt, hbelow]⟩
  have hle := Levels.le_highest (List.mem_map.2 ⟨below, hmem, rfl⟩ : _ ∈ List.map Metrics.level _)
  rw [← hm]
  cases operation with
  | var name => cases hinput
  | not _ | and _ | or _ => exact Nat.lt_one_add_iff.2 hle

/-! ### Heights -/

/-- Where the settings are regular, every node has a height. -/
theorem height_pos {settings : Settings Rat} (h : settings.Regular) {operations : List Operation}
    {m : Metrics Rat} (hm : m ∈ metrics settings operations) : 0 < m.height := by
  have hbase := h.baseHeight
  have hnot := h.notHeightPerLeaf
  have hgate := h.gateHeightPerInput
  have hlevel := h.heightPerLevel
  obtain ⟨id, hid⟩ := List.mem_iff_getElem?.1 hm
  rw [getElem?_metrics, Option.map_eq_some_iff] at hid
  obtain ⟨operation, -, rfl⟩ := hid
  cases operation <;> simp only [nodeMetrics, nodeSize, Operation.gate, Scalar.whole_rat] <;>
    positivity

end Layout

end Schematic
