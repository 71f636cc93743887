import Schematic.Proofs.Layout.Leaves
import Schematic.Proofs.Layout.Levels

/-!
# Gates and leaves in a layout

In exact arithmetic, and where no size and no distance is negative, a gate of a layout stands with
its middle at the mean of what it reads, or below that and then exactly at the least distance from
the node directly above it. So the topmost gate of a level is centred. The leaves stand as they were
stacked, one row gap apart (`Formula.balanced_layout`).
-/

namespace Schematic

namespace Diagram

/-- The nodes that a node reads, in the order of its operands. -/
def operandNodes {α : Type} (diagram : Diagram α) (node : Node α) : List (Node α) :=
  node.operation.inputs.filterMap diagram.node?

/-- The mean of the middles of what a node reads. -/
def meanOfOperands (diagram : Diagram Rat) (node : Node Rat) : Rat :=
  ((diagram.operandNodes node).map (·.box.centreY)).sum / (diagram.operandNodes node).length

/-- Of the nodes that come before the second one on its level the first is the last. -/
def DirectlyAbove (diagram : Diagram Rat) (upper lower : Node Rat) : Prop :=
  upper ∈ diagram.nodes ∧ upper.level = lower.level ∧ upper.Before lower ∧
    ∀ other ∈ diagram.nodes, other.level = lower.level → other.Before lower →
      other = upper ∨ other.Before upper

/-- The gates of a diagram are centred on what they read, as far as the distances allow. -/
structure Balanced (settings : Settings Rat) (diagram : Diagram Rat) : Prop where
  /-- What a node reads is there. -/
  found {node : Node Rat} {input : NodeId} : node ∈ diagram.nodes →
    input ∈ node.operation.inputs → ∃ operand, diagram.node? input = some operand
  /-- No gate stands higher than what it reads. -/
  mean_le {node : Node Rat} : node ∈ diagram.nodes → node.operation.inputs ≠ [] →
    diagram.meanOfOperands node ≤ node.box.centreY
  /-- A gate that stands lower stands as close to the node directly above it as it may. -/
  pushed {node : Node Rat} : node ∈ diagram.nodes → node.operation.inputs ≠ [] →
    diagram.meanOfOperands node < node.box.centreY →
      ∃ upper, diagram.DirectlyAbove upper node ∧
        node.box.y = upper.box.bottom + settings.minSeparation (diagram.fanInAt node.level)
  /-- The topmost gate of a level is centred. -/
  topmost {node : Node Rat} : node ∈ diagram.nodes → node.operation.inputs ≠ [] →
    (∀ other ∈ diagram.nodes, other.level = node.level → ¬ other.Before node) →
      node.box.centreY = diagram.meanOfOperands node

end Diagram

namespace Formula

open Layout

variable (f : Formula) {settings : Settings Rat} {id : NodeId} {node : Node Rat}

/-! ### Operands -/

theorem middle_boxes (hnode : (f.layout settings).nodes[id]? = some node) :
    middle (f.boxes settings) node.operation.inputs = (f.layout settings).meanOfOperands node := by
  have hcount : ((f.layout settings).operandNodes node).length = node.operation.inputs.length := by
    rw [Diagram.operandNodes, List.filterMap_length_eq_length]
    intro input hinput
    obtain ⟨operand, hoperand, -⟩ := f.exists_operand_layout settings hnode hinput
    rw [Diagram.node?, hoperand, Option.isSome_some]
  have hcentres : (node.operation.inputs.filterMap ((f.boxes settings)[·]?)).map Box.centreY =
      ((f.layout settings).operandNodes node).map (·.box.centreY) := by
    simp only [getElem?_boxes, Diagram.operandNodes, List.map_filterMap, Option.map_map]
    rfl
  rw [middle, Diagram.meanOfOperands, hcentres, hcount]

/-! ### Gates -/

/-- A gate is centred, or it stands exactly at the least distance below another node. -/
theorem rests_layout (hnode : (f.layout settings).nodes[id]? = some node)
    (hne : node.operation.inputs ≠ []) :
    node.box.centreY = (f.layout settings).meanOfOperands node ∨
      (f.layout settings).meanOfOperands node < node.box.centreY ∧
        ∃ upper ∈ (f.layout settings).nodes, upper.level = node.level ∧ node.box.y =
          upper.box.bottom +
            settings.minSeparation ((f.layout settings).fanInAt node.level) := by
  obtain ⟨column, hcolumn, hlevel, hid, hfanIn⟩ := f.exists_column_layout settings hnode
  have hfed : ((operations f).map (·.inputs))[id]? = some node.operation.inputs := by
    rw [List.getElem?_map, f.operation_of_getElem?_layout settings hnode, Option.map_some]
  have hinputs : ∀ input ∈ node.operation.inputs,
      ∃ m, (metrics settings (operations f))[input]? = some m ∧ m.level < column.level := by
    intro input hinput
    obtain ⟨operand, hoperand, -⟩ := f.exists_operand_layout settings hnode hinput
    have hlt := f.level_lt_of_mem_inputs_layout settings hnode hinput hoperand
    exact ⟨_, f.metrics_of_getElem?_layout settings hoperand, hlevel ▸ hlt⟩
  have hpos : 0 < column.level := by
    obtain ⟨input, hinput⟩ := List.exists_mem_of_ne_nil _ hne
    obtain ⟨m, -, hlt⟩ := hinputs input hinput
    exact Nat.zero_lt_of_lt hlt
  have hrests : Rests (settings.minSeparation column.fanIn) (f.boxes settings) column.ids
      node.operation.inputs id := rests_place settings hcolumn hid hfed hne hpos hinputs
  rw [Rests, f.middle_boxes hnode, f.box_of_getElem?_layout settings hnode] at hrests
  obtain ⟨box, hbox, hrests⟩ := hrests
  obtain rfl := Option.some.inj hbox
  rcases hrests with hcentred | ⟨hlt, j, hj, above, below, habove, hbelow, hy⟩
  · exact .inl hcentred
  · obtain rfl := Option.some.inj (hbelow.symm.trans (f.box_of_getElem?_layout settings hnode))
    obtain ⟨upper, hupper, rfl⟩ :=
      Option.map_eq_some_iff.1 ((f.getElem?_boxes settings j).symm.trans habove)
    have hlevel' := (f.mem_ids_layout_iff settings hcolumn hupper).1 hj
    exact .inr ⟨hlt, upper, Array.mem_of_getElem? hupper, hlevel'.trans hlevel, hfanIn ▸ hy⟩

/-- A node that stands exactly at the least distance below another one stands directly below it. -/
theorem directlyAbove_layout (h : settings.Regular) {upper lower : Node Rat}
    (hupper : upper ∈ (f.layout settings).nodes) (hlower : lower ∈ (f.layout settings).nodes)
    (hlevel : upper.level = lower.level)
    (hy : lower.box.y =
      upper.box.bottom + settings.minSeparation ((f.layout settings).fanInAt lower.level)) :
    (f.layout settings).DirectlyAbove upper lower := by
  have hgap := h.minSeparation_nonneg ((f.layout settings).fanInAt lower.level)
  have hheight : ∀ node ∈ (f.layout settings).nodes, node.box.y < node.box.bottom := by
    intro node hnode
    obtain ⟨id, hid⟩ := Array.mem_iff_getElem?.1 hnode
    exact lt_add_of_pos_right _ (f.height_pos_of_getElem?_layout h hid)
  have hy' := hheight upper hupper
  refine ⟨hupper, hlevel, .inl (by linarith), fun other hother hlevel' hbefore => ?_⟩
  have hle := f.apart_layout h hother hlower hlevel' hbefore
  rw [hlevel'] at hle
  have hbottom := hheight other hother
  -- A node between the two would have to keep its distance from both.
  rcases (f.numbered_layout settings).eq_or_before hother hupper with heq | hbefore | hbehind
  · exact .inl heq
  · exact .inr hbefore
  · have hle' := f.apart_layout h hupper hother (hlevel.trans hlevel'.symm) hbehind
    rw [hlevel] at hle'
    linarith

/-- A gate is centred or stands lower. -/
theorem meanOfOperands_le_layout (hnode : node ∈ (f.layout settings).nodes)
    (hne : node.operation.inputs ≠ []) :
    (f.layout settings).meanOfOperands node ≤ node.box.centreY := by
  obtain ⟨id, hid⟩ := Array.mem_iff_getElem?.1 hnode
  rcases f.rests_layout hid hne with heq | ⟨hlt, -⟩
  · exact heq.ge
  · exact hlt.le

/-- A gate that stands lower has been pushed down by the node directly above it. -/
theorem exists_directlyAbove_layout (h : settings.Regular)
    (hnode : node ∈ (f.layout settings).nodes) (hne : node.operation.inputs ≠ [])
    (hlt : (f.layout settings).meanOfOperands node < node.box.centreY) :
    ∃ upper, (f.layout settings).DirectlyAbove upper node ∧ node.box.y = upper.box.bottom +
      settings.minSeparation ((f.layout settings).fanInAt node.level) := by
  obtain ⟨id, hid⟩ := Array.mem_iff_getElem?.1 hnode
  rcases f.rests_layout hid hne with heq | ⟨-, upper, hupper, hlevel, hy⟩
  · exact absurd heq hlt.ne'
  · exact ⟨upper, f.directlyAbove_layout h hupper hnode hlevel hy, hy⟩

/-! ### Leaves -/

/-- The numbers in a column are those of the nodes on its level. -/
theorem ids_layout {column : Column Rat}
    (h : column ∈ columns (metrics settings (operations f))) :
    column.ids = ((f.layout settings).nodes.toList.filter (·.level = column.level)).map (·.id) := by
  have hplaces : (f.layout settings).nodes.toList.zipIdx =
      (f.layout settings).nodes.toList.map fun node => (node, node.id) := by
    apply List.ext_getElem?
    intro id
    simp only [List.getElem?_zipIdx, List.getElem?_map, Array.getElem?_toList]
    refine Option.map_congr fun node hnode => ?_
    rw [f.numbered_layout settings id node hnode, Nat.zero_add]
  rw [ids_eq h, ← map_metrics_layout, List.zipIdx_map, hplaces, List.map_map, List.filter_map,
    List.map_map]
  rfl

/-- The leaves, and no other nodes, are on level zero. -/
theorem level_eq_zero_iff_layout (hnode : node ∈ (f.layout settings).nodes) :
    node.level = 0 ↔ node.operation.gate = .var := by
  rw [(f.measures_layout settings).leaf hnode]
  cases node.operation <;> simp [Operation.gate]

/-- No leaf has more than one variable under it. -/
theorem fanInAt_zero_layout : (f.layout settings).fanInAt 0 ≤ 1 := by
  rcases List.mem_cons.1 (Levels.highest_mem
    (((f.layout settings).nodes.toList.filter (·.level = 0)).map (·.fanIn))) with hzero | hmem
  · exact hzero.le.trans zero_le_one
  · obtain ⟨node, hnode, heq⟩ := List.mem_map.1 hmem
    obtain ⟨hnode, hlevel⟩ := List.mem_filter.1 hnode
    obtain ⟨id, hid⟩ := Array.mem_iff_getElem?.1 (Array.mem_toList_iff.1 hnode)
    obtain ⟨part, hpart, -⟩ := f.node_of_getElem?_layout settings hid
    obtain ⟨hheight, hfanIn⟩ := f.measure_of_getElem?_layout settings hid hpart
    have hgate : part.gate = .var :=
      height_eq_zero_iff.1 (hheight.symm.trans (of_decide_eq_true hlevel))
    rw [Diagram.fanInAt, ← heq, hfanIn, leafCount_eq, if_pos hgate]

/-- The column of the leaves is stacked with the row gap alone. -/
theorem rowGapFor_leaves {column : Column Rat}
    (hcolumn : column ∈ columns (metrics settings (operations f))) (hlevel : column.level = 0) :
    settings.rowGapFor column.fanIn = settings.rowGap := by
  have hfanIn : (f.layout settings).fanInAt 0 ≤ 1 := f.fanInAt_zero_layout
  rw [← hlevel, f.fanInAt_layout settings hcolumn] at hfanIn
  have hnone : column.fanIn - 2 = 0 := by omega
  simp [Settings.rowGapFor, hnone]

/-- The leaves stand one row gap apart, in the order of their numbers. -/
theorem isChain_leaves_layout (h : settings.Regular) (hratio : settings.minSeparationRatio ≤ 1) :
    ((f.layout settings).nodes.toList.filter (·.operation.gate = .var)).IsChain
      fun upper lower => lower.box.y = upper.box.bottom + settings.rowGap := by
  have hfilter : (f.layout settings).nodes.toList.filter (·.operation.gate = .var) =
      (f.layout settings).nodes.toList.filter (·.level = 0) :=
    List.filter_congr fun node hnode => by
      simp only [f.level_eq_zero_iff_layout (Array.mem_toList_iff.1 hnode)]
  rw [hfilter]
  by_cases hsome : ∃ leaf ∈ (f.layout settings).nodes, leaf.level = 0
  · obtain ⟨leaf, hleaf, hzero⟩ := hsome
    obtain ⟨id, hid⟩ := Array.mem_iff_getElem?.1 hleaf
    obtain ⟨column, hcolumn, hlevel, -⟩ := f.exists_column_layout settings hid
    rw [hzero] at hlevel
    have hchain := isChain_adjoins_place h hratio ((operations f).map (·.inputs))
      (fun m hm => height_pos h hm) hcolumn hlevel
    rw [f.rowGapFor_leaves hcolumn hlevel, f.ids_layout hcolumn, hlevel,
      List.isChain_map] at hchain
    have hbox : ∀ node ∈ (f.layout settings).nodes.toList.filter (·.level = 0),
        (f.boxes settings)[node.id]? = some node.box := fun node hnode =>
      f.box_of_mem_layout (Array.mem_toList_iff.1 (List.mem_of_mem_filter hnode))
    refine hchain.imp_of_mem_imp fun upper lower hupper hlower => ?_
    rintro ⟨above, below, habove, hbelow, hy⟩
    obtain rfl := Option.some.inj ((hbox upper hupper).symm.trans habove)
    obtain rfl := Option.some.inj ((hbox lower hlower).symm.trans hbelow)
    exact hy
  · have hnone : (f.layout settings).nodes.toList.filter (·.level = 0) = [] := by
      simpa using hsome
    rw [hnone]
    exact .nil

/-! ### Layouts -/

/-- **Gates stand with their operands** as far as the distances allow, where no size and no distance
is negative. The leaves stand one row gap apart, if the least distance is no more than the whole
one. -/
theorem balanced_layout (h : settings.Regular) :
    (f.layout settings).Balanced settings ∧
      (settings.minSeparationRatio ≤ 1 →
        ((f.layout settings).nodes.toList.filter (·.operation.gate = .var)).IsChain
          fun upper lower => lower.box.y = upper.box.bottom + settings.rowGap) := by
  refine ⟨⟨fun hnode hinput => ?_, f.meanOfOperands_le_layout, f.exists_directlyAbove_layout h,
    fun hnode hne htop => ?_⟩, f.isChain_leaves_layout h⟩
  · obtain ⟨id, hid⟩ := Array.mem_iff_getElem?.1 hnode
    obtain ⟨operand, hoperand, -⟩ := f.exists_operand_layout settings hid hinput
    exact ⟨operand, hoperand⟩
  · -- There is nothing above the topmost node that could have pushed it down.
    refine ((f.meanOfOperands_le_layout hnode hne).eq_of_not_lt fun hlt => ?_).symm
    obtain ⟨upper, ⟨hupper, hlevel, hbefore, -⟩, -⟩ :=
      f.exists_directlyAbove_layout h hnode hne hlt
    exact htop upper hupper hlevel hbefore

/-- Where the whole distance is kept, the inverters of `!A + !B`, which are higher than the leaves,
have no room to be centred both. -/
theorem balanced_layout_inverters :
    let settings : Settings Rat := { Settings.default with minSeparationRatio := 1 }
    let diagram := (or [not (var 'A'), not (var 'B')]).layout settings
    settings.Regular ∧ settings.minSeparationRatio ≤ 1 ∧ diagram.Balanced settings ∧
      (diagram.nodes.toList.filter (·.operation.gate = .var)).IsChain
        fun upper lower => lower.box.y = upper.box.bottom + settings.rowGap := by
  intro settings diagram
  have hregular : settings.Regular :=
    { Settings.proper_default.toRegular with minSeparationRatio := zero_le_one }
  obtain ⟨hbalanced, hleaves⟩ := balanced_layout (or [not (var 'A'), not (var 'B')]) hregular
  exact ⟨hregular, le_rfl, hbalanced, hleaves le_rfl⟩

/-- The second of them stands 2 lower than its operand, and the `+` is centred again. -/
example :
    let diagram := (or [not (var 'A'), not (var 'B')]).layout
      { (Settings.default : Settings Rat) with minSeparationRatio := 1 }
    ([0, 1, 3].filterMap diagram.node?).map (fun node =>
      node.box.centreY - diagram.meanOfOperands node) = [0, 0, 2] := by
  cbv

end Formula

end Schematic
