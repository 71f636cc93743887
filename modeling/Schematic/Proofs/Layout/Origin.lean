import Schematic.Proofs.Diagram.Changes
import Schematic.Proofs.Layout.Wires

/-!
# What a layout remembers

Every node but the root is the operand of one gate, and the record of a layout tells of which one
and where (`exists_operandOf_layout`). So the way up from a node leads from gate to gate to the
root, and the same operands taken on the way down through the formula lead to the part at the node's
place (`exists_rises_layout`). The record is out of reach of later changes, and hence a diagram that
was laid out tells the part of every node that it still has, whatever has become of its nodes and
wires (`Formula.remembers_after`).
-/

namespace Schematic

variable {α : Type}

/-! ### The way up -/

namespace Origin

/-- The way up from a node, with the operands that are passed on it, the first one first: from every
node to the gate that it is an operand of, up to one that is an operand of none. -/
inductive Rises (origin : Origin) : NodeId → List Nat → NodeId → Prop where
  /-- The way ends. -/
  | top {id : NodeId} : (∀ entry, origin.operandOf[id]? ≠ some (some entry)) → Rises origin id [] id
  /-- The way goes on from the gate. -/
  | operand {id gate top : NodeId} {slot : Nat} {slots : List Nat} :
    origin.operandOf[id]? = some (some (gate, slot)) → Rises origin gate slots top →
      Rises origin id (slot :: slots) top

/-- Where gates have smaller numbers than their operands, a climb follows the way up to its end. -/
theorem Rises.climb_eq {origin : Origin}
    (hlt : ∀ {id gate slot : Nat}, origin.operandOf[id]? = some (some (gate, slot)) → gate < id)
    {id top : NodeId} {slots : List Nat} (h : origin.Rises id slots top) (below : List Nat) :
    origin.climb id below = slots.reverse ++ below := by
  induction h generalizing below with
  | top hnone =>
    rw [climb]
    split
    · next gate slot hentry => exact absurd hentry (hnone (gate, slot))
    · rfl
  | operand hentry _ ih =>
    rw [climb, hentry]
    simp only [hlt hentry, if_true]
    rw [ih, List.reverse_cons, List.append_assoc, List.singleton_append]

theorem follow_concat (f : Formula) (path : List Nat) (slot : Nat) :
    follow f (path ++ [slot]) = (follow f path).bind (·.operands[slot]?) := by
  rw [follow, List.foldlM_append]
  simp only [List.foldlM_cons, List.foldlM_nil, bind_pure]
  rfl

/-- The record of a node is made from the wires that leave it, of which the last one counts. -/
theorem getElem?_operandOf_foldl (wires : List Wire) (origin : Origin) (id : NodeId) :
    (wires.foldl addWire origin).operandOf[id]? =
      origin.operandOf[id]?.map ((wires.filter (·.source = id)).foldl
        fun _ wire => some (wire.target, wire.slot)) := by
  induction wires generalizing origin with
  | nil => simp
  | cons wire wires ih =>
    rw [List.foldl_cons, ih, addWire, Array.getElem?_setIfInBounds]
    by_cases heq : wire.source = id
    · by_cases hlt : id < origin.operandOf.size
      · simp [heq, hlt]
      · simp [heq, hlt]
    · simp [heq]

end Origin

namespace Formula

open Layout

variable [Scalar α] (f : Formula) (settings : Settings α)

theorem operandOf_layout (id : NodeId) :
    (f.layout settings).origin.operandOf[id]? =
      if id < f.nodeCount then some (((f.layout settings).wiresFrom id).foldl
        (fun _ wire => some (wire.target, wire.slot)) none) else none := by
  rw [layout, Origin.ofWires, Origin.getElem?_operandOf_foldl, Array.getElem?_replicate,
    length_operations]
  split <;> rfl

/-- The root is an operand of no gate. -/
theorem operandOf_root_layout : (f.layout settings).origin.operandOf[0]? = some none := by
  have hfrom : (f.layout settings).wiresFrom 0 = [] := f.wiresFrom_root_layout settings
  have hpos : 0 < f.nodeCount := by
    rw [nodeCount_eq]
    exact Nat.succ_pos _
  rw [operandOf_layout, if_pos hpos, hfrom, List.foldl_nil]

/-- Every other node is the operand of one gate. -/
theorem exists_operandOf_layout {id : NodeId} (hpos : 0 < id) (hlt : id < f.nodeCount) :
    ∃ gate slot part operand,
      (f.layout settings).origin.operandOf[id]? = some (some (gate, slot)) ∧ gate < id ∧
        f.preOrder[gate]? = some part ∧ part.operands[slot]? = some operand ∧
        f.preOrder[id]? = some operand := by
  obtain ⟨wire, hfrom, -⟩ := f.exists_wiresFrom_layout settings hpos hlt
  have hmem : wire ∈ (f.layout settings).wiresFrom id := hfrom ▸ List.mem_singleton_self wire
  obtain ⟨hwire, hsource⟩ := List.mem_filter.1 hmem
  obtain rfl := of_decide_eq_true hsource
  rw [Array.mem_toList_iff] at hwire
  obtain ⟨-, -, -, -, -, hgate⟩ := f.exists_ends_of_mem_wires_layout settings hwire
  obtain ⟨part, operand, hpart, hslot, hoperand⟩ :=
    f.exists_operand_of_mem_wires_layout settings hwire
  refine ⟨wire.target, wire.slot, part, operand, ?_, hgate, hpart, hslot, hoperand⟩
  rw [operandOf_layout, if_pos hlt, hfrom, List.foldl_cons, List.foldl_nil]

/-- A gate has a smaller number than its operands. -/
theorem gate_lt_of_operandOf_layout {id gate slot : Nat}
    (h : (f.layout settings).origin.operandOf[id]? = some (some (gate, slot))) : gate < id := by
  have hlt : id < f.nodeCount := by
    by_contra hle
    rw [operandOf_layout, if_neg hle] at h
    cases h
  have hpos : 0 < id := by
    refine Nat.pos_of_ne_zero ?_
    rintro rfl
    rw [operandOf_root_layout] at h
    cases h
  obtain ⟨gate', slot', -, -, hentry, hgate, -⟩ := f.exists_operandOf_layout settings hpos hlt
  cases h.symm.trans hentry
  exact hgate

/-- The way up from a node ends at the root, and the operands that are passed on it lead from the
formula down to the part at the node's place. -/
theorem exists_rises_layout {id : NodeId} (h : id < f.nodeCount) :
    ∃ slots, (f.layout settings).origin.Rises id slots 0 ∧
      Origin.follow f slots.reverse = f.preOrder[id]? := by
  induction id using Nat.strongRecOn with
  | ind id ih =>
    rcases Nat.eq_zero_or_pos id with rfl | hpos
    · refine ⟨[], .top fun entry hentry => ?_, ?_⟩
      · rw [operandOf_root_layout] at hentry
        cases hentry
      · rw [preOrder_eq, List.getElem?_cons_zero]
        rfl
    · obtain ⟨gate, slot, part, operand, hentry, hgate, hpart, hslot, hoperand⟩ :=
        f.exists_operandOf_layout settings hpos h
      obtain ⟨slots, hrises, hfollow⟩ := ih gate hgate (hgate.trans h)
      refine ⟨slot :: slots, .operand hentry hrises, ?_⟩
      rw [List.reverse_cons, Origin.follow_concat, hfollow, hpart, Option.bind_some, hslot,
        hoperand]

end Formula

/-! ### After later changes -/

/-- A diagram remembers the formula it was laid out from, and what each of its nodes stands for. -/
structure Diagram.Remembers (diagram : Diagram α) (f : Formula) : Prop where
  /-- The formula is the one it was laid out from. -/
  formula : diagram.formula = f
  /-- There is no node without a part. -/
  size : diagram.nodes.size ≤ f.nodeCount
  /-- A node stands for the part at its place. -/
  part {id : NodeId} : id < diagram.nodes.size →
    ∃ part, f.parts[id]? = some part ∧ diagram.formulaOf? id = some part
  /-- What is no node stands for nothing. -/
  outside {id : NodeId} : diagram.nodes.size ≤ id → diagram.formulaOf? id = none
  /-- The way up from every place of a part ends at the root, and a climb follows it to its end. -/
  rises {id : NodeId} : id < f.nodeCount →
    ∃ slots, diagram.origin.Rises id slots 0 ∧ diagram.origin.path id = slots.reverse

namespace Formula

variable [Scalar α] (f : Formula) (settings : Settings α)

/-- What a diagram remembers rests on the record of the layout alone. -/
theorem remembers_of_origin_eq {diagram : Diagram α}
    (horigin : diagram.origin = (f.layout settings).origin)
    (hsize : diagram.nodes.size ≤ f.nodeCount) : diagram.Remembers f := by
  have hformula : diagram.origin.formula = f := horigin ▸ f.formula_layout settings
  have hrises : ∀ {id : NodeId}, id < f.nodeCount → ∃ slots, diagram.origin.Rises id slots 0 ∧
      diagram.origin.path id = slots.reverse ∧
        Origin.follow f slots.reverse = f.preOrder[id]? := by
    intro id hid
    obtain ⟨slots, hrises, hfollow⟩ := f.exists_rises_layout settings hid
    rw [horigin]
    refine ⟨slots, hrises, ?_, hfollow⟩
    exact (hrises.climb_eq (f.gate_lt_of_operandOf_layout settings) []).trans (List.append_nil _)
  refine ⟨hformula, hsize, fun {id} hid => ?_, fun hle => if_neg (Nat.not_lt.2 hle), fun hid => ?_⟩
  · obtain ⟨slots, -, hpath, hfollow⟩ := hrises (Nat.lt_of_lt_of_le hid hsize)
    obtain ⟨part, hpart⟩ : ∃ part, f.preOrder[id]? = some part :=
      ⟨_, List.getElem?_eq_getElem (Nat.lt_of_lt_of_le hid hsize)⟩
    refine ⟨part, ?_, ?_⟩
    · rw [← preOrder_eq_parts, hpart]
    · rw [Diagram.formulaOf?, if_pos hid, Origin.part?, hpath, hformula, hfollow, hpart]
  · obtain ⟨slots, hup, hpath, -⟩ := hrises hid
    exact ⟨slots, hup, hpath⟩

/-- **A diagram remembers what its nodes stand for.** Whatever is done with a layout later, its
formula is the one it was laid out from, every node it still has stands for the part at its place in
pre-order, and the parents of all nodes are what they were. -/
theorem remembers_after (changes : List (Change α)) :
    ((f.layout settings).after changes).Remembers f ∧
      ∀ id, ((f.layout settings).after changes).parents id = (f.layout settings).parents id := by
  have horigin := (f.layout settings).origin_after changes
  constructor
  · refine f.remembers_of_origin_eq settings horigin ?_
    exact f.size_nodes_layout settings ▸ (f.layout settings).size_nodes_after_le changes
  · intro id
    rw [Diagram.parents, horigin]
    rfl

end Formula

end Schematic
