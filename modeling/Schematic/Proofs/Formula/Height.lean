import Mathlib.Algebra.Order.BigOperators.Group.List
import Mathlib.Algebra.Order.Ring.Nat
import Schematic.Proofs.Formula.PreOrder
import Schematic.Proofs.Levels

/-!
# How high a formula is and how many leaves it has

The height of a formula is the longest way down to a leaf. It is at most the number of the formula's
parts (`height_le_nodeCount`), and where every chain has an operand there is a part of every height
up to that of the formula (`exists_part_of_le_height`). The leaves of a formula are those of its
operands (`leafCount_eq`), and there are no more of them than parts (`leafCount_le_nodeCount`).
-/

namespace Schematic.Formula

/-! ### Height -/

mutual

/-- The longest way down to a leaf. A chain without operands is one step above a leaf, though there
is nothing under it. -/
def height : Formula → Nat
  | var _ => 0
  | not operand => 1 + operand.height
  | and operands => 1 + Levels.highest (heights operands)
  | or operands => 1 + Levels.highest (heights operands)

/-- The heights of formulas. -/
def heights : List Formula → List Nat
  | [] => []
  | f :: fs => f.height :: heights fs

end

theorem heights_eq_map (fs : List Formula) : heights fs = fs.map height := by
  induction fs with
  | nil => rfl
  | cons f fs ih => rw [heights, ih, List.map_cons]

/-- A gate is one step above its highest operand. -/
theorem height_eq (f : Formula) :
    f.height = if f.gate = .var then 0 else 1 + Levels.highest (f.operands.map height) := by
  cases f with
  | var name => rfl
  | not operand => simp [height, gate, operands, Levels.highest]
  | and operands => rw [height, heights_eq_map, gate, if_neg (by decide), Formula.operands]
  | or operands => rw [height, heights_eq_map, gate, if_neg (by decide), Formula.operands]

/-- Variables and nothing else have no height. -/
theorem height_eq_zero_iff {f : Formula} : f.height = 0 ↔ f.gate = .var := by
  rw [height_eq]
  split <;> simp_all

theorem height_lt_of_mem_operands {f operand : Formula} (h : operand ∈ f.operands) :
    operand.height < f.height := by
  have hgate : f.gate ≠ .var := by
    intro hvar
    cases f <;> cases hvar
    cases h
  rw [height_eq f, if_neg hgate, Nat.lt_one_add_iff]
  exact Levels.le_highest (List.mem_map_of_mem h)

/-! ### Parts -/

/-- No part is higher than the formula. -/
theorem height_le_of_mem_preOrder {f part : Formula} (h : part ∈ f.preOrder) :
    part.height ≤ f.height := by
  induction f using inductionOnOperands with
  | step f ih =>
    rw [preOrder_eq, List.mem_cons, List.mem_flatMap] at h
    rcases h with rfl | ⟨operand, hoperand, hpart⟩
    · exact Nat.le_refl _
    · exact Nat.le_trans (ih operand hoperand hpart)
        (Nat.le_of_lt (height_lt_of_mem_operands hoperand))

theorem nodeCount_le_of_getElem? {f part : Formula} {i : Nat} (h : f.preOrder[i]? = some part) :
    part.nodeCount ≤ f.nodeCount := by
  have hle := (prefix_drop_of_getElem? h).length_le
  rw [List.length_drop] at hle
  exact Nat.le_trans hle (Nat.sub_le ..)

theorem nodeCount_lt_of_mem_operands {f operand : Formula} (h : operand ∈ f.operands) :
    operand.nodeCount < f.nodeCount := by
  rw [nodeCount_eq f, Nat.lt_succ_iff, List.length_flatMap]
  exact List.le_sum_of_mem (List.mem_map.2 ⟨operand, h, rfl⟩)

/-- Every step up from a leaf takes a part of its own. -/
theorem height_le_nodeCount (f : Formula) : f.height ≤ f.nodeCount := by
  induction f using inductionOnOperands with
  | step f ih =>
    have hpos : 0 < f.nodeCount := by rw [nodeCount_eq]; exact Nat.succ_pos _
    rw [height_eq]
    split
    · exact Nat.zero_le _
    · rcases List.mem_cons.1 (Levels.highest_mem (f.operands.map height)) with hzero | hmem
      · rw [hzero]
        exact hpos
      · obtain ⟨operand, hoperand, heq⟩ := List.mem_map.1 hmem
        have hle := ih operand hoperand
        have hlt := nodeCount_lt_of_mem_operands hoperand
        omega

/-- Where every chain has an operand, there is a part of every height up to that of the formula. -/
theorem exists_part_of_le_height {f : Formula} (hand : .and [] ∉ f.preOrder)
    (hor : .or [] ∉ f.preOrder) {level : Nat} (h : level ≤ f.height) :
    ∃ part ∈ f.preOrder, part.height = level := by
  induction f using inductionOnOperands with
  | step f ih =>
    rw [preOrder_eq] at hand hor ⊢
    rcases Nat.lt_or_eq_of_le h with hlt | rfl
    · have hgate : f.gate ≠ .var := by
        intro hvar
        rw [height_eq_zero_iff.2 hvar] at hlt
        exact Nat.not_lt_zero _ hlt
      have hne : f.operands.map height ≠ [] := by
        rw [Ne, List.map_eq_nil_iff]
        intro hempty
        cases f <;> simp_all [gate, operands]
      rw [height_eq, if_neg hgate, Nat.lt_one_add_iff] at hlt
      obtain ⟨_, hmem, hle⟩ := Levels.exists_le_of_le_highest hne hlt
      obtain ⟨operand, hoperand, rfl⟩ := List.mem_map.1 hmem
      have hsubset : operand.preOrder ⊆ f.operands.flatMap preOrder :=
        fun part hpart => List.mem_flatMap.2 ⟨operand, hoperand, hpart⟩
      obtain ⟨part, hpart, hheight⟩ := ih operand hoperand
        (fun hmem => hand (List.mem_cons_of_mem _ (hsubset hmem)))
        (fun hmem => hor (List.mem_cons_of_mem _ (hsubset hmem))) hle
      exact ⟨part, List.mem_cons_of_mem _ (hsubset hpart), hheight⟩
    · exact ⟨f, List.mem_cons_self, rfl⟩

/-! ### Leaves -/

/-- The leaves of a formula are those of its operands, left to right. -/
theorem leaves_eq (f : Formula) : f.leaves = f.name?.toList ++ f.operands.flatMap leaves := by
  rw [leaves, preOrder_eq, List.filterMap_cons, List.filterMap_flatMap]
  cases f <;> rfl

theorem leafCount_eq (f : Formula) :
    f.leafCount = if f.gate = .var then 1 else (f.operands.map leafCount).sum := by
  rw [leafCount, leaves_eq, List.length_append, List.length_flatMap]
  cases f with
  | var name => rfl
  | not _ | and _ | or _ => exact Nat.zero_add _

/-- Operands have no leaves but those of the formula. -/
theorem sum_leafCount_operands_le (f : Formula) :
    (f.operands.map leafCount).sum ≤ f.leafCount := by
  rw [leafCount_eq]
  cases f with
  | var name => exact Nat.zero_le _
  | not _ | and _ | or _ => exact Nat.le_refl _

/-- There are no more leaves than parts. -/
theorem leafCount_le_nodeCount (f : Formula) : f.leafCount ≤ f.nodeCount :=
  List.length_filterMap_le ..

end Schematic.Formula
