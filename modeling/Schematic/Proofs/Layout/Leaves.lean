import Schematic.Proofs.Layout.Centring
import Schematic.Proofs.Layout.Sweep

/-!
# Leaves stay stacked

The first column holds the leaves. Nothing feeds them, so they are not centred, and they have been
stacked with more distance between them than a sweep asks for, unless the settings ask for more than
the whole of it. Then the sweep moves none of them, and they stand in the drawing as they were
stacked (`isChain_adjoins_place`).
-/

namespace Schematic.Layout

variable {gap : Rat} {boxes boxes' : Array (Box Rat)} {upper lower id : NodeId}
  {ids : List NodeId}

/-! ### Stacking -/

theorem getElem?_stack_of_notMem {members : List (NodeId × Metrics Rat)}
    (h : id ∉ members.map (·.1)) (gap y : Rat) (boxes : Array (Box Rat)) :
    (stack gap y members boxes)[id]? = boxes[id]? := by
  induction members generalizing y boxes with
  | nil => rfl
  | cons member members ih =>
    rw [List.map_cons, List.mem_cons, not_or] at h
    rw [stack, ih h.2, moveY, Array.getElem?_modify, if_neg (Ne.symm h.1)]

/-- Stacking columns moves no node of another one. -/
theorem getElem?_foldl_stackColumn_of_notMem (settings : Settings Rat)
    {columns : List (Column Rat)} (h : ∀ column ∈ columns, id ∉ column.ids)
    (boxes : Array (Box Rat)) :
    (columns.foldl (stackColumn settings) boxes)[id]? = boxes[id]? :=
  foldl_keeps (·[id]?)
    (fun column hmem _ => getElem?_stack_of_notMem (h column hmem) ..) boxes

/-- The first node of a stack stands where the stack starts, and every other one exactly `gap` below
the one before it. -/
theorem isChain_adjoins_stack {members : List (NodeId × Metrics Rat)}
    (hnodup : (members.map (·.1)).Nodup)
    (hheight : ∀ id m, (id, m) ∈ members → ∃ box, boxes[id]? = some box ∧ box.height = m.height)
    (y : Rat) :
    (∀ id ∈ (members.map (·.1)).head?, ∃ box,
        (stack gap y members boxes)[id]? = some box ∧ box.y = y) ∧
      (members.map (·.1)).IsChain (Adjoins gap (stack gap y members boxes)) := by
  induction members generalizing y boxes with
  | nil => exact ⟨nofun, .nil⟩
  | cons member members ih =>
    obtain ⟨id, m⟩ := member
    obtain ⟨hnot, hnodup⟩ := List.nodup_cons.1 hnodup
    obtain ⟨box, hbox, hm⟩ := hheight id m List.mem_cons_self
    have hmoved : (moveY y id boxes)[id]? = some { box with y := y } := by
      rw [moveY, Array.getElem?_modify, if_pos rfl, hbox, Option.map_some]
    have hfirst : (stack gap (y + (m.height + gap)) members (moveY y id boxes))[id]? =
        some { box with y := y } := by
      rw [getElem?_stack_of_notMem hnot, hmoved]
    have hheight' : ∀ id' m', (id', m') ∈ members →
        ∃ box, (moveY y id boxes)[id']? = some box ∧ box.height = m'.height := by
      intro id' m' hmem
      have hne : id ≠ id' := fun heq => hnot (heq ▸ List.mem_map.2 ⟨_, hmem, rfl⟩)
      rw [moveY, Array.getElem?_modify, if_neg hne]
      exact hheight id' m' (List.mem_cons_of_mem _ hmem)
    obtain ⟨hhead, hchain⟩ := ih hnodup hheight' (y + (m.height + gap))
    rw [stack, List.map_cons]
    refine ⟨fun first hmem => ?_, List.isChain_cons.2 ⟨fun next hnext => ?_, hchain⟩⟩
    · obtain rfl : id = first := by simpa using hmem
      exact ⟨_, hfirst, rfl⟩
    · obtain ⟨below, hbelow, hy⟩ := hhead next hnext
      refine ⟨_, below, hfirst, hbelow, ?_⟩
      rw [hy, Box.bottom, hm]
      exact (add_assoc ..).symm

theorem isChain_adjoins_congr (h : ids.IsChain (Adjoins gap boxes))
    (hids : ∀ id ∈ ids, boxes'[id]? = boxes[id]?) : ids.IsChain (Adjoins gap boxes') :=
  h.imp_of_mem_imp fun i j hi hj hadjoins => hadjoins.congr (hids i hi) (hids j hj)

/-- The nodes of a column are stacked with its gap between them. -/
theorem isChain_adjoins_foldl_stackColumn (settings : Settings Rat) {metrics : List (Metrics Rat)}
    {column : Column Rat} (h : column ∈ columns metrics)
    (hsize : boxes.map Box.size = (unplaced metrics).map Box.size) :
    column.ids.IsChain (Adjoins (settings.rowGapFor column.fanIn)
      ((columns metrics).foldl (stackColumn settings) boxes)) := by
  obtain ⟨before, after, hsplit, -, hafter⟩ := exists_split h
  have hkept : (before.foldl (stackColumn settings) boxes).map Box.size =
      (unplaced metrics).map Box.size := by
    rw [map_size_of_map_atTop (map_atTop_foldl_stackColumn ..), hsize]
  have hheight : ∀ id m, (id, m) ∈ column.members →
      ∃ box, (before.foldl (stackColumn settings) boxes)[id]? = some box ∧
        box.height = m.height := by
    intro id m hmem
    have hm := ((mem_members_iff h).1 hmem).1
    have hat := congrArg (·[id]?) hkept
    simp only [unplaced, Array.getElem?_map, List.getElem?_toArray, List.getElem?_map, hm,
      Option.map_some, Option.map_eq_some_iff] at hat
    obtain ⟨box, hbox, heq⟩ := hat
    exact ⟨box, hbox, congrArg Prod.snd heq⟩
  rw [hsplit, List.foldl_append, List.foldl_cons]
  have hchain : column.ids.IsChain (Adjoins (settings.rowGapFor column.fanIn)
      (stackColumn settings (before.foldl (stackColumn settings) boxes) column)) :=
    (isChain_adjoins_stack (nodup_ids h) hheight settings.marginY).2
  refine isChain_adjoins_congr hchain fun id hid => ?_
  exact getElem?_foldl_stackColumn_of_notMem settings
    (fun later hlater => (hafter later hlater).2 id hid) _

/-! ### Sweeping -/

/-- Nodes that stand one below the other are in order from the top down. -/
theorem fromTop_eq_self (hgap : 0 ≤ gap) (hheight : ∀ box ∈ boxes, 0 < box.height)
    (hlt : ∀ id ∈ ids, id < boxes.size) (h : ids.IsChain (Above gap boxes)) :
    fromTop boxes ids = ids := by
  refine fromTop_eq_of_perm hlt (.refl ids) (pairwise_before_of_isChain h hlt ?_)
  intro id _ box hbox
  exact add_pos_of_pos_of_nonneg (hheight box (Array.mem_of_getElem? hbox)) hgap

/-- A column that nothing feeds is left as it was stacked where it keeps its distance. -/
theorem settle_eq_self (settings : Settings Rat) (inputsOf : Array (List NodeId))
    {column : Column Rat} (hlevel : column.level = 0)
    (hgap : 0 ≤ settings.minSeparation column.fanIn) (hheight : ∀ box ∈ boxes, 0 < box.height)
    (hlt : ∀ id ∈ column.ids, id < boxes.size)
    (h : column.ids.IsChain (Above (settings.minSeparation column.fanIn) boxes)) :
    settle settings inputsOf boxes column = boxes := by
  have hcentre : centreColumn inputsOf boxes column = boxes := by
    rw [centreColumn, hlevel]
    rfl
  rw [settle_eq, hcentre, separate, fromTop_eq_self hgap hheight hlt h, sweep_eq_self h]

/-! ### The drawing -/

theorem Adjoins.above {least : Rat} (h : Adjoins gap boxes upper lower) (hle : least ≤ gap) :
    Above least boxes upper lower := by
  obtain ⟨above, below, habove, hbelow, hy⟩ := h
  exact ⟨above, below, habove, hbelow, by linarith⟩

/-- In the drawing the leaves stand with their whole distance between them, if the part of it that
is kept in any case is no more than the whole. -/
theorem isChain_adjoins_place {settings : Settings Rat} (h : settings.Regular)
    (hratio : settings.minSeparationRatio ≤ 1) (inputsOf : List (List NodeId))
    {metrics : List (Metrics Rat)} (hheight : ∀ m ∈ metrics, 0 < m.height) {column : Column Rat}
    (hcolumn : column ∈ columns metrics) (hlevel : column.level = 0) :
    column.ids.IsChain (Adjoins (settings.rowGapFor column.fanIn)
      (place settings inputsOf metrics)) := by
  obtain ⟨before, after, hsplit, hbefore, hafter⟩ := exists_split hcolumn
  -- There is no level below that of the leaves, and the columns behind hold other nodes.
  have hfirst : before = [] := by
    refine List.eq_nil_iff_forall_not_mem.2 fun earlier hearlier => ?_
    have hlt := (hbefore earlier hearlier).1
    omega
  have hstacked : column.ids.IsChain (Adjoins (settings.rowGapFor column.fanIn)
      (stacked settings metrics)) :=
    isChain_adjoins_foldl_stackColumn settings hcolumn (map_size_spread ..)
  have hself : settle settings inputsOf.toArray (stacked settings metrics) column =
      stacked settings metrics := by
    refine settle_eq_self settings _ hlevel (h.minSeparation_nonneg _) (fun box hbox => ?_)
      (fun id hid => ?_) (hstacked.imp fun _ _ hadjoins => hadjoins.above ?_)
    · obtain ⟨m, hm, heq⟩ := exists_height_of_mem_stacked hbox
      exact heq ▸ hheight m hm
    · rw [size_stacked]
      exact lt_of_mem_ids hcolumn hid
    · exact h.minSeparation_le hratio _
  have hsettled : column.ids.IsChain (Adjoins (settings.rowGapFor column.fanIn)
      ((columns metrics).foldl (settle settings inputsOf.toArray) (stacked settings metrics))) := by
    refine isChain_adjoins_congr hstacked fun id hid => ?_
    rw [hsplit, hfirst, List.nil_append, List.foldl_cons, hself]
    exact getElem?_foldl_settle_of_notMem (fun later hlater => (hafter later hlater).2 id hid) ..
  rw [place_eq]
  exact hsettled.imp fun _ _ hadjoins => hadjoins.shiftToMargin _

end Schematic.Layout
