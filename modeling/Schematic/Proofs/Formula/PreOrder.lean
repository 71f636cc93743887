import Schematic.Formula.Walk
import Schematic.Proofs.Formula.Structure

/-!
# Pre-order

The walk with its list of pending formulas visits what the recursion visits: a formula, then the
parts of its operands one after the other (`preOrder_eq`, `preOrder_eq_parts`). So the parts of a
part stand together, from its own place on (`prefix_drop_of_getElem?`), the places of its operands
are found by counting (`getElem?_operandPlaces`), and the parts of the operands fill the places
behind it without a gap (`exists_mem_zip_operandPlaces_iff`).
-/

namespace Schematic.Formula

/-! ### The walk -/

theorem walk_append (pending more : List Formula) :
    walk (pending ++ more) = walk pending ++ walk more := by
  fun_induction walk pending with
  | case1 => rfl
  | case2 f pending ih => rw [List.cons_append, walk, ← List.append_assoc, ih, List.cons_append]

/-- The walk visits the pending formulas one after the other. -/
theorem walk_eq_flatMap (pending : List Formula) : walk pending = pending.flatMap preOrder := by
  induction pending with
  | nil => rw [walk, List.flatMap_nil]
  | cons f pending ih =>
    rw [← List.singleton_append, walk_append, ih]
    simp [preOrder]

/-- A formula comes first, then the parts of its operands. -/
theorem preOrder_eq (f : Formula) : f.preOrder = f :: f.operands.flatMap preOrder := by
  rw [preOrder, walk, List.append_nil, walk_eq_flatMap]

theorem nodeCount_eq (f : Formula) : f.nodeCount = (f.operands.flatMap preOrder).length + 1 := by
  rw [nodeCount, preOrder_eq, List.length_cons]

/-! ### The recursion -/

mutual

/-- Every part of a formula, by recursion: itself, then the parts of its operands, left to
right. -/
def parts : Formula → List Formula
  | var name => [var name]
  | not operand => not operand :: operand.parts
  | and operands => and operands :: partsAll operands
  | or operands => or operands :: partsAll operands

/-- Every part of several formulas, one formula after the other. -/
def partsAll : List Formula → List Formula
  | [] => []
  | f :: fs => f.parts ++ partsAll fs

end

theorem flatMap_preOrder_eq_partsAll {fs : List Formula} (h : ∀ f ∈ fs, f.preOrder = f.parts) :
    fs.flatMap preOrder = partsAll fs := by
  induction fs with
  | nil => rfl
  | cons f fs ih =>
    rw [List.forall_mem_cons] at h
    rw [List.flatMap_cons, h.1, ih h.2, partsAll]

/-- The walk visits the parts in the order of the recursion. -/
theorem preOrder_eq_parts (f : Formula) : f.preOrder = f.parts := by
  induction f with
  | var name => rw [preOrder_eq, operands, List.flatMap_nil, parts]
  | not operand ih => rw [preOrder_eq, operands, List.flatMap_singleton, ih, parts]
  | and operands ih =>
    rw [preOrder_eq, parts, ← flatMap_preOrder_eq_partsAll ih]
    rfl
  | or operands ih =>
    rw [preOrder_eq, parts, ← flatMap_preOrder_eq_partsAll ih]
    rfl

/-! ### The parts of a part -/

theorem prefix_drop_flatMap {fs : List Formula} {i : Nat} {g : Formula}
    (h : ∀ f ∈ fs, ∀ i, f.preOrder[i]? = some g → g.preOrder <+: f.preOrder.drop i)
    (hg : (fs.flatMap preOrder)[i]? = some g) :
    g.preOrder <+: (fs.flatMap preOrder).drop i := by
  induction fs generalizing i with
  | nil => simp at hg
  | cons f fs ih =>
    rw [List.forall_mem_cons] at h
    rw [List.flatMap_cons] at hg ⊢
    by_cases hi : i < f.preOrder.length
    · rw [List.getElem?_append_left hi] at hg
      rw [List.drop_append_of_le_length (Nat.le_of_lt hi)]
      exact (h.1 i hg).trans (List.prefix_append ..)
    · rw [List.getElem?_append_right (by omega)] at hg
      rw [List.drop_append, List.drop_eq_nil_of_le (by omega), List.nil_append]
      exact ih h.2 hg

/-- The parts of a part follow each other from its own place on. -/
theorem prefix_drop_of_getElem? {f g : Formula} {i : Nat} (h : f.preOrder[i]? = some g) :
    g.preOrder <+: f.preOrder.drop i := by
  induction f using inductionOnOperands generalizing i with
  | step f ih =>
    cases i with
    | zero =>
      rw [preOrder_eq, List.getElem?_cons_zero, Option.some.injEq] at h
      subst h
      exact List.prefix_refl _
    | succ i =>
      rw [preOrder_eq f, List.getElem?_cons_succ] at h
      rw [preOrder_eq f, List.drop_succ_cons]
      exact prefix_drop_flatMap (fun part hpart i hi => ih part hpart hi) h

/-! ### Names -/

/-- The names of a formula are the variables at its leaves. -/
theorem mem_variableNames {f : Formula} {name : Char} :
    name ∈ f.variableNames ↔ name ∈ f.leaves := by
  rw [variableNames]
  induction f.leaves with
  | nil => rfl
  | cons leaf leaves ih => rw [List.foldr_cons, mem_insertName, ih, List.mem_cons]

/-! ### The places of operands -/

/-- The places of formulas whose parts follow each other from `first` on. -/
def operandPlaces (first : Nat) : List Formula → List Nat
  | [] => []
  | f :: fs => first :: operandPlaces (first + f.nodeCount) fs

theorem le_of_mem_operandPlaces {first place : Nat} {fs : List Formula}
    (h : place ∈ operandPlaces first fs) : first ≤ place := by
  induction fs generalizing first with
  | nil => simp [operandPlaces] at h
  | cons f fs ih =>
    rcases List.mem_cons.1 h with rfl | h
    · exact Nat.le_refl _
    · exact Nat.le_trans (Nat.le_add_right ..) (ih h)

@[simp] theorem length_operandPlaces (first : Nat) (fs : List Formula) :
    (operandPlaces first fs).length = fs.length := by
  induction fs generalizing first with
  | nil => rfl
  | cons f fs ih => rw [operandPlaces, List.length_cons, ih, List.length_cons]

theorem getElem?_operandPlaces {fs parts : List Formula} {first : Nat}
    (h : fs.flatMap preOrder <+: parts.drop first) :
    (operandPlaces first fs).map (parts[·]?) = fs.map some := by
  induction fs generalizing first with
  | nil => rfl
  | cons f fs ih =>
    obtain ⟨rest, hrest⟩ := h
    rw [List.flatMap_cons, List.append_assoc] at hrest
    have hhead : parts[first]? = some f := by
      rw [← List.head?_drop, ← hrest, preOrder_eq]
      rfl
    have htail : fs.flatMap preOrder <+: parts.drop (first + f.nodeCount) := by
      rw [← List.drop_drop, ← hrest, nodeCount, List.drop_left]
      exact List.prefix_append ..
    rw [operandPlaces, List.map_cons, hhead, ih htail, List.map_cons]

/-- The operands of the part at a place stand behind it, where counting finds them. -/
theorem getElem?_operandPlaces_of_getElem? {f g : Formula} {i : Nat}
    (h : f.preOrder[i]? = some g) :
    (operandPlaces (i + 1) g.operands).map (f.preOrder[·]?) = g.operands.map some := by
  apply getElem?_operandPlaces
  obtain ⟨rest, hrest⟩ := prefix_drop_of_getElem? h
  rw [preOrder_eq g, List.cons_append] at hrest
  rw [← List.drop_drop, ← hrest, List.drop_succ_cons, List.drop_zero]
  exact List.prefix_append ..

theorem mem_operandPlaces_iff {fs : List Formula} {first start : Nat} :
    start ∈ operandPlaces first fs ↔ ∃ f, (start, f) ∈ (operandPlaces first fs).zip fs := by
  have hzip : ((operandPlaces first fs).zip fs).map (·.1) = operandPlaces first fs :=
    List.map_fst_zip (by simp)
  constructor
  · intro h
    rw [← hzip] at h
    obtain ⟨⟨place, f⟩, hmem, rfl⟩ := List.mem_map.1 h
    exact ⟨f, hmem⟩
  · rintro ⟨f, hmem⟩
    exact (List.of_mem_zip hmem).1

/-- What is found at the places of operands is measured as the operands are, if each of them is. -/
theorem map_filterMap_operandPlaces {β γ : Type} {get : Nat → Option β} {view : β → γ}
    {measure : Formula → γ} {first : Nat} {fs : List Formula}
    (h : ∀ place f, (place, f) ∈ (operandPlaces first fs).zip fs →
      (get place).map view = some (measure f)) :
    ((operandPlaces first fs).filterMap get).map view = fs.map measure := by
  induction fs generalizing first with
  | nil => rfl
  | cons f fs ih =>
    obtain ⟨item, hitem, hview⟩ := Option.map_eq_some_iff.1 (h first f List.mem_cons_self)
    rw [operandPlaces, List.filterMap_cons_some hitem, List.map_cons, hview, List.map_cons,
      ih fun place g hg => h place g (List.mem_cons_of_mem _ hg)]

theorem of_mem_zip_operandPlaces {f g operand : Formula} {i start : Nat}
    (h : f.preOrder[i]? = some g)
    (hoperand : (start, operand) ∈ (operandPlaces (i + 1) g.operands).zip g.operands) :
    f.preOrder[start]? = some operand := by
  have hplaces := getElem?_operandPlaces_of_getElem? h
  obtain ⟨slot, hslot⟩ := List.mem_iff_getElem?.1 hoperand
  rw [List.getElem?_zip_eq_some] at hslot
  have hat := congrArg (·[slot]?) hplaces
  simpa only [List.getElem?_map, hslot.1, hslot.2, Option.map_some, Option.some.injEq] using hat

/-- Formulas that follow each other fill the places of their parts without a gap. -/
theorem exists_mem_zip_operandPlaces_iff {fs : List Formula} {first place : Nat} :
    (∃ start f, (start, f) ∈ (operandPlaces first fs).zip fs ∧
        start ≤ place ∧ place < start + f.nodeCount) ↔
      first ≤ place ∧ place < first + (fs.flatMap preOrder).length := by
  induction fs generalizing first with
  | nil => simp [operandPlaces]
  | cons f fs ih =>
    have hsplit : (∃ start g, (start, g) ∈ (operandPlaces first (f :: fs)).zip (f :: fs) ∧
          start ≤ place ∧ place < start + g.nodeCount) ↔
        (first ≤ place ∧ place < first + f.nodeCount) ∨
          ∃ start g, (start, g) ∈ (operandPlaces (first + f.nodeCount) fs).zip fs ∧
            start ≤ place ∧ place < start + g.nodeCount := by
      simp only [operandPlaces, List.zip_cons_cons, List.mem_cons, Prod.mk.injEq]
      constructor
      · rintro ⟨start, g, ⟨rfl, rfl⟩ | hmem, hplace⟩
        · exact .inl hplace
        · exact .inr ⟨start, g, hmem, hplace⟩
      · rintro (hplace | ⟨start, g, hmem, hplace⟩)
        · exact ⟨first, f, .inl ⟨rfl, rfl⟩, hplace⟩
        · exact ⟨start, g, .inr hmem, hplace⟩
    rw [hsplit, ih, List.flatMap_cons, List.length_append, nodeCount]
    omega

end Schematic.Formula
