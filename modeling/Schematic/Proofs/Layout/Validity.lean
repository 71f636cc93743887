import Schematic.Proofs.Diagram.Validity
import Schematic.Proofs.Layout.Canvas
import Schematic.Proofs.Layout.Nodes
import Schematic.Proofs.Layout.Separation

/-!
# Layouts keep the rules of placement

Where no size and no distance is negative, a layout in exact arithmetic keeps the rules of placement
without any tolerance (`Formula.keepsRules_layout`), so that it passes the check
(`Formula.validateWith_layout`).
-/

namespace Schematic.Formula

open Layout

section

variable {α : Type} [Scalar α] (f : Formula) (settings : Settings α)

theorem numbered_layout : (f.layout settings).Numbered := by
  intro id node hnode
  obtain ⟨-, -, hid, -⟩ := f.node_of_getElem?_layout settings hnode
  exact hid

theorem nodes_layout_ne_empty : (f.layout settings).nodes ≠ #[] := by
  intro hempty
  have hsize := f.size_nodes_layout settings
  rw [hempty, nodeCount_eq] at hsize
  cases hsize

/-- A node is on a higher level than what it reads. -/
theorem level_lt_of_mem_inputs_layout {id input : NodeId} {node operand : Node α}
    (h : (f.layout settings).nodes[id]? = some node) (hinput : input ∈ node.operation.inputs)
    (hoperand : (f.layout settings).nodes[input]? = some operand) : operand.level < node.level := by
  obtain ⟨-, -, hlt⟩ := f.exists_operand_layout settings h hinput
  exact level_lt_of_mem_inputs settings (f.operation_of_getElem?_layout settings h) hinput hlt
    (f.metrics_of_getElem?_layout settings h) (f.metrics_of_getElem?_layout settings hoperand)

/-- Every wire rises. -/
theorem level_lt_of_mem_wires_layout {wire : Wire} (h : wire ∈ (f.layout settings).wires) :
    ∃ source target, (f.layout settings).node? wire.source = some source ∧
      (f.layout settings).node? wire.target = some target ∧ source.level < target.level := by
  obtain ⟨source, target, hsource, htarget, hinput, -⟩ :=
    f.exists_ends_of_mem_wires_layout settings h
  exact ⟨source, target, hsource, htarget,
    f.level_lt_of_mem_inputs_layout settings htarget hinput hsource⟩

/-- The largest fan-in on a level is that of its column. -/
theorem fanInAt_layout {column : Column α}
    (h : column ∈ columns (metrics settings (operations f))) :
    (f.layout settings).fanInAt column.level = column.fanIn := by
  rw [fanIn_eq h, ← map_metrics_layout, List.filter_map, List.map_map]
  rfl

/-- Every node is in a column, that of its level. -/
theorem exists_column_layout {id : NodeId} {node : Node α}
    (h : (f.layout settings).nodes[id]? = some node) :
    ∃ column ∈ columns (metrics settings (operations f)), column.level = node.level ∧
      id ∈ column.ids ∧ (f.layout settings).fanInAt node.level = column.fanIn := by
  obtain ⟨column, hcolumn, hlevel, hid⟩ := exists_column (f.metrics_of_getElem?_layout settings h)
  refine ⟨column, hcolumn, hlevel, hid, ?_⟩
  rw [← f.fanInAt_layout settings hcolumn, hlevel]
  rfl

/-- A column holds the nodes of its level. -/
theorem mem_ids_layout_iff {column : Column α} {id : NodeId} {node : Node α}
    (hcolumn : column ∈ columns (metrics settings (operations f)))
    (h : (f.layout settings).nodes[id]? = some node) :
    id ∈ column.ids ↔ node.level = column.level := by
  rw [mem_ids_iff hcolumn, f.metrics_of_getElem?_layout settings h]
  simp [Node.metrics]

end

variable (f : Formula) {settings : Settings Rat}

theorem box_of_mem_layout {node : Node Rat} (h : node ∈ (f.layout settings).nodes) :
    (f.boxes settings)[node.id]? = some node.box := by
  obtain ⟨id, hid⟩ := Array.mem_iff_getElem?.1 h
  rw [f.numbered_layout settings id node hid]
  exact f.box_of_getElem?_layout settings hid

theorem mem_boxes_of_mem_layout {node : Node Rat} (h : node ∈ (f.layout settings).nodes) :
    node.box ∈ f.boxes settings :=
  Array.mem_of_getElem? (f.box_of_mem_layout h)

theorem height_pos_of_getElem?_layout (h : settings.Regular) {id : NodeId} {node : Node Rat}
    (hnode : (f.layout settings).nodes[id]? = some node) : 0 < node.box.height :=
  height_pos h (List.mem_of_getElem? (f.metrics_of_getElem?_layout settings hnode))

/-- Two nodes of a level keep their distance. -/
theorem apart_layout (h : settings.Regular) {upper lower : Node Rat}
    (hupper : upper ∈ (f.layout settings).nodes) (hlower : lower ∈ (f.layout settings).nodes)
    (hlevel : upper.level = lower.level) (hbefore : upper.Before lower) :
    upper.box.bottom + settings.minSeparation ((f.layout settings).fanInAt upper.level) ≤
      lower.box.y := by
  obtain ⟨i, hi⟩ := Array.mem_iff_getElem?.1 hupper
  obtain ⟨j, hj⟩ := Array.mem_iff_getElem?.1 hlower
  have hne : i ≠ j := by
    rintro rfl
    obtain rfl := Option.some.inj (hi.symm.trans hj)
    exact hbefore.asymm hbefore
  obtain ⟨column, hcolumn, hlevel', hmi, hfanIn⟩ := f.exists_column_layout settings hi
  have hmj : j ∈ column.ids :=
    (f.mem_ids_layout_iff settings hcolumn hj).2 (hlevel.symm.trans hlevel'.symm)
  have hapart := apart_place h ((operations f).map (·.inputs))
    (fun m hm => (height_pos h hm).le) hcolumn i hmi j hmj hne
  rw [hfanIn]
  rcases hapart with ⟨above, below, habove, hbelow, hle⟩ | ⟨above, below, habove, hbelow, hle⟩
  · obtain rfl := Option.some.inj (habove.symm.trans (f.box_of_getElem?_layout settings hi))
    obtain rfl := Option.some.inj (hbelow.symm.trans (f.box_of_getElem?_layout settings hj))
    exact hle
  · -- The lower one has a height, so it does not stand above the upper one.
    obtain rfl := Option.some.inj (habove.symm.trans (f.box_of_getElem?_layout settings hj))
    obtain rfl := Option.some.inj (hbelow.symm.trans (f.box_of_getElem?_layout settings hi))
    have hheight := f.height_pos_of_getElem?_layout h hj
    have hgap := h.minSeparation_nonneg column.fanIn
    have hy := hbefore.y_le
    rw [Box.bottom] at hle
    linarith

/-- The topmost node stands at the margin. -/
theorem y_layout :
    (∃ node ∈ (f.layout settings).nodes, node.box.y = settings.marginY) ∧
      ∀ node ∈ (f.layout settings).nodes, settings.marginY ≤ node.box.y := by
  have hmetrics : metrics settings (operations f) ≠ [] := by
    rw [Ne, ← List.length_eq_zero_iff, length_metrics, length_operations, nodeCount_eq]
    exact Nat.succ_ne_zero _
  obtain ⟨⟨box, hbox, hy⟩, hle⟩ := y_place settings ((operations f).map (·.inputs)) hmetrics
  constructor
  · have hmem : box ∈ (f.layout settings).nodes.toList.map (·.box) := by
      rw [map_box_layout]
      exact Array.mem_toList_iff.2 hbox
    obtain ⟨node, hnode, rfl⟩ := List.mem_map.1 hmem
    exact ⟨node, Array.mem_toList_iff.1 hnode, hy⟩
  · exact fun node hnode => hle node.box (f.mem_boxes_of_mem_layout hnode)

/-- Where no size and no distance is negative, a layout keeps the rules exactly. -/
theorem keepsRules_layout (h : settings.Proper) :
    (f.layout settings).KeepsRules 0 settings where
  nonempty := f.nodes_layout_ne_empty settings
  rises wire hwire := f.level_lt_of_mem_wires_layout settings hwire
  apart upper hupper lower hlower hlevel hbefore := by
    rw [add_zero]
    exact f.apart_layout h.toRegular hupper hlower hlevel hbefore
  onCanvas node hnode := by
    have hbox := f.mem_boxes_of_mem_layout hnode
    have hx := marginX_le_x_place settings h.columnGap _ _ hbox
    have hy := f.y_layout.2 node hnode
    have hright := right_add_marginX_le settings hbox
    have hbottom := bottom_add_marginY_le settings hbox
    have hmarginX := h.marginX
    have hmarginY := h.marginY
    rw [neg_zero, add_zero, add_zero]
    refine ⟨hmarginX.trans hx, hmarginY.trans hy, ?_, ?_⟩
    · exact (le_add_of_nonneg_right hmarginX).trans hright
    · exact (le_add_of_nonneg_right hmarginY).trans hbottom

/-- **Layouts are valid**: where no size and no distance is negative, a layout passes the check with
its tolerance and without one. It keeps the rules of placement exactly, and its topmost node stands
at the margin. -/
theorem validateWith_layout (h : settings.Proper) (distance : Rat → String) :
    Diagram.validateWith Diagram.tolerance distance settings (f.layout settings) = .ok () ∧
      Diagram.validateWith 0 distance settings (f.layout settings) = .ok () ∧
      (f.layout settings).KeepsRules 0 settings ∧
      (∃ node ∈ (f.layout settings).nodes, node.box.y = settings.marginY) ∧
      ∀ node ∈ (f.layout settings).nodes, settings.marginY ≤ node.box.y := by
  have hrules := f.keepsRules_layout h
  have htolerance : (0 : Rat) ≤ Diagram.tolerance := by decide +kernel
  refine ⟨?_, ?_, hrules, f.y_layout⟩
  · exact ((f.numbered_layout settings).validateWith_eq_ok_iff distance).2 (hrules.mono htolerance)
  · exact ((f.numbered_layout settings).validateWith_eq_ok_iff distance).2 hrules

/-- The drawing of `(A + !B).C` with the default settings is valid. -/
theorem validateWith_layout_default :
    (Settings.default : Settings Rat).Proper ∧
      Diagram.validateWith 0 (fun _ => "") Settings.default
          ((and [or [var 'A', not (var 'B')], var 'C']).layout (Settings.default : Settings Rat)) =
        .ok () ∧
      ((and [or [var 'A', not (var 'B')], var 'C']).layout
        (Settings.default : Settings Rat)).KeepsRules 0 Settings.default :=
  ⟨Settings.proper_default,
    (validateWith_layout _ Settings.proper_default _).2.1,
    (validateWith_layout _ Settings.proper_default fun _ => "").2.2.1⟩

end Schematic.Formula
