import Mathlib.Tactic.Linarith
import Schematic.Proofs.Layout.Validity

/-!
# Columns side by side

The columns are spread from left to right, each as wide as its widest node. So a node of a lower
level ends before one of a higher level starts (`right_add_columnGap_le_place`), and the nodes of a
level start together (`x_eq_place`). A wire rises in level, hence it runs from left to right, and
the pins of a gate are spread down its edge in the order of its operands
(`Formula.runs_left_to_right`). All this is of exact arithmetic.
-/

namespace Schematic

/-- The boxes of a diagram stand in columns with the gap between them, and its wires run from left
to right. -/
structure Diagram.LeftToRight (gap : Rat) (diagram : Diagram Rat) : Prop where
  /-- A node ends, with the gap, before the nodes of higher levels start. -/
  apart {left right : Node Rat} : left ∈ diagram.nodes → right ∈ diagram.nodes →
    left.level < right.level → left.box.right + gap ≤ right.box.x
  /-- Nodes of one level start together. -/
  aligned {node other : Node Rat} : node ∈ diagram.nodes → other ∈ diagram.nodes →
    node.level = other.level → node.box.x = other.box.x
  /-- A wire leaves its source, with the gap, before it enters its gate. -/
  wire {wire : Wire} : wire ∈ diagram.wires →
    ∃ start finish, diagram.outputAnchor? wire.source = some start ∧
      diagram.inputAnchor? wire = some finish ∧ start.x + gap ≤ finish.x
  /-- A wire enters its gate between top and bottom, if the gate has a height. -/
  pin {wire : Wire} {gate : Node Rat} : wire ∈ diagram.wires →
    diagram.node? wire.target = some gate → 0 < gate.box.height →
      ∃ pin, diagram.inputAnchor? wire = some pin ∧ gate.box.y < pin.y ∧ pin.y < gate.box.bottom
  /-- Further down it brings a later operand. -/
  pins {upper lower : Wire} {gate : Node Rat} : upper ∈ diagram.wires → lower ∈ diagram.wires →
    upper.target = lower.target → upper.slot < lower.slot →
    diagram.node? upper.target = some gate → 0 < gate.box.height →
      ∃ pin below, diagram.inputAnchor? upper = some pin ∧ diagram.inputAnchor? lower = some below ∧
        pin.y < below.y

namespace Layout

variable (settings : Settings Rat) {columns : List (Column Rat)} {left right : Column Rat}
  {boxes : Array (Box Rat)} {box other : Box Rat} {i j : NodeId}

/-! ### Columns -/

/-- No node is wider than its column. -/
theorem width_le_width_of_mem {column : Column Rat} {m : Metrics Rat}
    (h : (i, m) ∈ column.members) : m.width ≤ column.width :=
  Scalar.le_foldl_larger (List.mem_cons_of_mem _ (List.mem_map.2 ⟨(i, m), h, rfl⟩))

/-- The nodes of a column start together. -/
theorem x_eq_spread (hdisjoint : columns.Pairwise fun left right => ∀ id ∈ left.ids, id ∉ right.ids)
    {column : Column Rat} (hcolumn : column ∈ columns) (hi : i ∈ column.ids) (hj : j ∈ column.ids)
    {x : Rat} (hbox : (spread settings x columns boxes)[i]? = some box)
    (hother : (spread settings x columns boxes)[j]? = some other) : box.x = other.x := by
  induction columns generalizing x boxes with
  | nil => cases hcolumn
  | cons first columns ih =>
    obtain ⟨hfirst, hdisjoint⟩ := List.pairwise_cons.1 hdisjoint
    rcases List.mem_cons.1 hcolumn with rfl | hcolumn
    · rw [x_spread_of_mem_ids settings hi (fun later hlater => hfirst later hlater i hi) hbox,
        x_spread_of_mem_ids settings hj (fun later hlater => hfirst later hlater j hj) hother]
    · rw [spread] at hbox hother
      exact ih hdisjoint hcolumn hbox hother

/-- The nodes of a column start behind those of the columns before it: their column and the gap lie
between. -/
theorem x_add_width_le_spread (hgap : 0 ≤ settings.columnGap)
    (hdisjoint : columns.Pairwise fun left right => ∀ id ∈ left.ids, id ∉ right.ids)
    (hrises : columns.Pairwise fun left right => left.level < right.level)
    (hleft : left ∈ columns) (hright : right ∈ columns) (hlt : left.level < right.level)
    (hi : i ∈ left.ids) (hj : j ∈ right.ids) {x : Rat}
    (hbox : (spread settings x columns boxes)[i]? = some box)
    (hother : (spread settings x columns boxes)[j]? = some other) :
    box.x + (left.width + settings.columnGap) ≤ other.x := by
  induction columns generalizing x boxes with
  | nil => cases hleft
  | cons first columns ih =>
    obtain ⟨hfirst, hdisjoint⟩ := List.pairwise_cons.1 hdisjoint
    obtain ⟨hlowest, hrises⟩ := List.pairwise_cons.1 hrises
    have hbehind : right ∈ columns := by
      rcases List.mem_cons.1 hright with rfl | hright
      · rcases List.mem_cons.1 hleft with rfl | hleft
        · omega
        · have hlow := hlowest left hleft
          omega
      · exact hright
    rcases List.mem_cons.1 hleft with rfl | hleft
    · rw [x_spread_of_mem_ids settings hi (fun later hlater => hfirst later hlater i hi) hbox]
      rw [spread] at hother
      exact le_x_spread settings hgap ⟨right, hbehind, hj⟩ hother
    · rw [spread] at hbox hother
      exact ih hdisjoint hrises hleft hbehind hbox hother

/-! ### Placed boxes -/

variable {inputsOf : List (List NodeId)} {metrics : List (Metrics Rat)}

/-- Nodes of one level start together. -/
theorem x_eq_place {m n : Metrics Rat} (hm : metrics[i]? = some m) (hn : metrics[j]? = some n)
    (hlevel : m.level = n.level) (hbox : (place settings inputsOf metrics)[i]? = some box)
    (hother : (place settings inputsOf metrics)[j]? = some other) : box.x = other.x := by
  obtain ⟨column, hcolumn, hat, hi⟩ := exists_column hm
  have hj : j ∈ column.ids := (mem_ids_iff hcolumn).2 ⟨n, hn, by rw [hat, hlevel]⟩
  obtain ⟨old, hold, hx⟩ := exists_spread_of_place settings hbox
  obtain ⟨old', hold', hx'⟩ := exists_spread_of_place settings hother
  rw [← hx, ← hx']
  exact x_eq_spread settings (disjoint_columns metrics) hcolumn hi hj hold hold'

/-- A node ends, with the gap, before the nodes of higher levels start. -/
theorem right_add_columnGap_le_place (hgap : 0 ≤ settings.columnGap) {m n : Metrics Rat}
    (hm : metrics[i]? = some m) (hn : metrics[j]? = some n) (hlevel : m.level < n.level)
    (hbox : (place settings inputsOf metrics)[i]? = some box)
    (hother : (place settings inputsOf metrics)[j]? = some other) :
    box.x + m.width + settings.columnGap ≤ other.x := by
  obtain ⟨left, hleft, hat, hi⟩ := exists_column hm
  obtain ⟨right, hright, hat', hj⟩ := exists_column hn
  obtain ⟨old, hold, hx⟩ := exists_spread_of_place settings hbox
  obtain ⟨old', hold', hx'⟩ := exists_spread_of_place settings hother
  have hwidth := width_le_width_of_mem ((mem_members_iff hleft).2 ⟨hm, hat.symm⟩)
  have hspread := x_add_width_le_spread settings hgap (disjoint_columns metrics)
    (pairwise_level_columns metrics) hleft hright (by omega) hi hj hold hold'
  linarith

end Layout

/-- Where a wire enters its gate. -/
theorem Diagram.inputAnchor?_eq {diagram : Diagram Rat} {wire : Wire} {gate : Node Rat}
    (h : diagram.node? wire.target = some gate) :
    diagram.inputAnchor? wire = some ⟨gate.box.x, gate.box.y +
      gate.box.height * (((wire.slot + 1 : Nat) : Rat) / ((wire.slotCount + 1 : Nat) : Rat))⟩ := by
  rw [inputAnchor?, h]
  rfl

namespace Formula

open Layout

variable (f : Formula) {settings : Settings Rat}

/-! ### Nodes -/

theorem x_eq_layout {node other : Node Rat} (hnode : node ∈ (f.layout settings).nodes)
    (hother : other ∈ (f.layout settings).nodes) (hlevel : node.level = other.level) :
    node.box.x = other.box.x := by
  obtain ⟨i, hi⟩ := Array.mem_iff_getElem?.1 hnode
  obtain ⟨j, hj⟩ := Array.mem_iff_getElem?.1 hother
  exact x_eq_place settings (f.metrics_of_getElem?_layout settings hi)
    (f.metrics_of_getElem?_layout settings hj) hlevel (f.box_of_getElem?_layout settings hi)
    (f.box_of_getElem?_layout settings hj)

theorem right_add_columnGap_le_layout (hgap : 0 ≤ settings.columnGap) {left right : Node Rat}
    (hleft : left ∈ (f.layout settings).nodes) (hright : right ∈ (f.layout settings).nodes)
    (hlevel : left.level < right.level) :
    left.box.right + settings.columnGap ≤ right.box.x := by
  obtain ⟨i, hi⟩ := Array.mem_iff_getElem?.1 hleft
  obtain ⟨j, hj⟩ := Array.mem_iff_getElem?.1 hright
  exact right_add_columnGap_le_place settings hgap (f.metrics_of_getElem?_layout settings hi)
    (f.metrics_of_getElem?_layout settings hj) hlevel (f.box_of_getElem?_layout settings hi)
    (f.box_of_getElem?_layout settings hj)

/-! ### Wires -/

/-- A wire brings one of as many operands as its gate has. -/
theorem slot_lt_of_mem_wires_layout {wire : Wire} (h : wire ∈ (f.layout settings).wires) :
    wire.slot < wire.slotCount := by
  obtain ⟨_, -, hslot, hcount, -⟩ := mem_wires.1 (Array.mem_toList_iff.2 h)
  rw [hcount]
  exact (List.getElem?_eq_some_iff.1 hslot).1

theorem slotCount_eq_of_mem_wires_layout {wire other : Wire}
    (h : wire ∈ (f.layout settings).wires) (hother : other ∈ (f.layout settings).wires)
    (htarget : wire.target = other.target) : wire.slotCount = other.slotCount := by
  obtain ⟨operation, hat, -, hcount, -⟩ := mem_wires.1 (Array.mem_toList_iff.2 h)
  obtain ⟨operation', hat', -, hcount', -⟩ := mem_wires.1 (Array.mem_toList_iff.2 hother)
  rw [htarget, hat', Option.some.injEq] at hat
  rw [hcount, hcount', hat]

/-- A wire leaves its source, with the gap, before it enters its gate. -/
theorem exists_anchors_layout (hgap : 0 ≤ settings.columnGap) {wire : Wire}
    (h : wire ∈ (f.layout settings).wires) :
    ∃ start finish, (f.layout settings).outputAnchor? wire.source = some start ∧
      (f.layout settings).inputAnchor? wire = some finish ∧
      start.x + settings.columnGap ≤ finish.x := by
  obtain ⟨source, target, hsource, htarget, hlevel⟩ := f.level_lt_of_mem_wires_layout settings h
  refine ⟨_, _, congrArg (Option.map _) hsource, Diagram.inputAnchor?_eq htarget, ?_⟩
  exact f.right_add_columnGap_le_layout hgap (Array.mem_of_getElem? hsource)
    (Array.mem_of_getElem? htarget) hlevel

/-- A wire enters its gate between top and bottom. -/
theorem exists_pin_layout {wire : Wire} {gate : Node Rat} (h : wire ∈ (f.layout settings).wires)
    (hgate : (f.layout settings).node? wire.target = some gate) (hheight : 0 < gate.box.height) :
    ∃ pin, (f.layout settings).inputAnchor? wire = some pin ∧
      gate.box.y < pin.y ∧ pin.y < gate.box.bottom := by
  have hslot := f.slot_lt_of_mem_wires_layout h
  have hcount : (0 : Rat) < ((wire.slotCount + 1 : Nat) : Rat) := by positivity
  refine ⟨_, Diagram.inputAnchor?_eq hgate, ?_, ?_⟩
  · exact lt_add_of_pos_right _ (by positivity)
  · have hshare : ((wire.slot + 1 : Nat) : Rat) / ((wire.slotCount + 1 : Nat) : Rat) < 1 :=
      (div_lt_one hcount).2 (by exact_mod_cast Nat.succ_lt_succ hslot)
    exact add_lt_add_right (mul_lt_of_lt_one_right hheight hshare) gate.box.y

/-- Of two wires into a gate, the one that brings the later operand enters further down. -/
theorem exists_pins_layout {upper lower : Wire} {gate : Node Rat}
    (hupper : upper ∈ (f.layout settings).wires) (hlower : lower ∈ (f.layout settings).wires)
    (htarget : upper.target = lower.target) (hslot : upper.slot < lower.slot)
    (hgate : (f.layout settings).node? upper.target = some gate) (hheight : 0 < gate.box.height) :
    ∃ pin below, (f.layout settings).inputAnchor? upper = some pin ∧
      (f.layout settings).inputAnchor? lower = some below ∧ pin.y < below.y := by
  refine ⟨_, _, Diagram.inputAnchor?_eq hgate, Diagram.inputAnchor?_eq (htarget ▸ hgate), ?_⟩
  have hcount := f.slotCount_eq_of_mem_wires_layout hupper hlower htarget
  have hshare : ((upper.slot + 1 : Nat) : Rat) / ((lower.slotCount + 1 : Nat) : Rat) <
      ((lower.slot + 1 : Nat) : Rat) / ((lower.slotCount + 1 : Nat) : Rat) :=
    div_lt_div_of_pos_right (by exact_mod_cast Nat.succ_lt_succ hslot) (by positivity)
  dsimp only
  rw [hcount]
  exact add_lt_add_right (mul_lt_mul_of_pos_left hshare hheight) gate.box.y

/-- **Layouts run from left to right**: in exact arithmetic, where the gap between columns is not
negative, the boxes stand in columns with that gap between them. A wire leaves its source before
it enters its gate, and the wires of a gate that has a height enter it in the order of its
operands. -/
theorem runs_left_to_right (h : 0 ≤ settings.columnGap) :
    (f.layout settings).LeftToRight settings.columnGap where
  apart hleft hright hlevel := f.right_add_columnGap_le_layout h hleft hright hlevel
  aligned hnode hother hlevel := f.x_eq_layout hnode hother hlevel
  wire hwire := f.exists_anchors_layout h hwire
  pin hwire hgate hheight := f.exists_pin_layout hwire hgate hheight
  pins hupper hlower htarget hslot hgate hheight :=
    f.exists_pins_layout hupper hlower htarget hslot hgate hheight

/-- Columns without a gap, with boxes of no width and with boxes drawn to the left, still run from
left to right. -/
theorem runs_left_to_right_thin :
    let settings : Settings Rat := { Settings.default with columnGap := 0, baseWidth := -8 }
    0 ≤ settings.columnGap ∧
      ((or [and [var 'A', not (var 'B')], var 'C']).layout settings).LeftToRight 0 := by
  intro settings
  have hgap : (0 : Rat) ≤ settings.columnGap := le_rfl
  exact ⟨hgap, runs_left_to_right _ hgap⟩

end Formula

end Schematic
