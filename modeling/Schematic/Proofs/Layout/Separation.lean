import Mathlib.Data.List.Basic
import Mathlib.Data.List.Pairwise
import Mathlib.Tactic.Linarith
import Schematic.Proofs.Layout.Canvas
import Schematic.Proofs.Layout.Settings

/-!
# Nodes of a column stand apart

A sweep goes down a list: each node stays, or comes down to the gap below the one before it
(`isChain_pushes_sweep`), so it stands below that one (`isChain_sweep`). Where no box has a negative
height, every node then stands below all that come before it, so any two nodes of a
settled column stand apart (`apart_settle`). Settling the other columns and shifting the drawing
keep it so, and hence it holds of the placed boxes (`apart_place`).
-/

namespace Schematic.Layout

variable {gap : Rat} {boxes : Array (Box Rat)} {upper lower : NodeId} {ids : List NodeId}

/-- The first node stands above the second one, and there are at least `gap` between them. -/
def Above (gap : Rat) (boxes : Array (Box Rat)) (upper lower : NodeId) : Prop :=
  ∃ above below, boxes[upper]? = some above ∧ boxes[lower]? = some below ∧
    above.bottom + gap ≤ below.y

/-- Of any two of the nodes one stands above the other. -/
def Apart (gap : Rat) (boxes : Array (Box Rat)) (ids : List NodeId) : Prop :=
  ∀ i ∈ ids, ∀ j ∈ ids, i ≠ j → Above gap boxes i j ∨ Above gap boxes j i

theorem Above.congr {boxes' : Array (Box Rat)} (h : Above gap boxes upper lower)
    (hupper : boxes'[upper]? = boxes[upper]?) (hlower : boxes'[lower]? = boxes[lower]?) :
    Above gap boxes' upper lower := by
  rw [Above, hupper, hlower]
  exact h

/-- Nodes that no pass touches stay apart. -/
theorem Apart.congr {boxes' : Array (Box Rat)} (h : Apart gap boxes ids)
    (hids : ∀ id ∈ ids, boxes'[id]? = boxes[id]?) : Apart gap boxes' ids := by
  intro i hi j hj hne
  exact (h i hi j hj hne).imp (·.congr (hids i hi) (hids j hj)) (·.congr (hids j hj) (hids i hi))

theorem Above.trans {middle : NodeId} (hgap : 0 ≤ gap) (hheight : ∀ box ∈ boxes, 0 ≤ box.height)
    (h : Above gap boxes upper middle) (h' : Above gap boxes middle lower) :
    Above gap boxes upper lower := by
  obtain ⟨above, between, habove, hbetween, hle⟩ := h
  obtain ⟨between', below, hbetween', hbelow, hle'⟩ := h'
  obtain rfl := Option.some.inj (hbetween.symm.trans hbetween')
  have hbox := hheight between (Array.mem_of_getElem? hbetween)
  refine ⟨above, below, habove, hbelow, ?_⟩
  rw [Box.bottom] at hle'
  linarith

/-! ### The sweep -/

/-- One step of a sweep, from the boxes before it to those after it: the lower node stays where it
is, or comes down to stand `gap` below the upper one. -/
def Pushes (gap : Rat) (before after : Array (Box Rat)) (upper lower : NodeId) : Prop :=
  ∃ above old, after[upper]? = some above ∧ before[lower]? = some old ∧
    after[lower]? = some { old with y := max old.y (above.bottom + gap) }

theorem Pushes.above {after : Array (Box Rat)} (h : Pushes gap boxes after upper lower) :
    Above gap after upper lower := by
  obtain ⟨above, old, habove, -, hlower⟩ := h
  exact ⟨above, _, habove, hlower, le_max_right ..⟩

theorem pushes_keepBelow (hne : upper ≠ lower) (hupper : upper < boxes.size)
    (hlower : lower < boxes.size) :
    Pushes gap boxes (keepBelow gap upper lower boxes) upper lower := by
  have habove := Array.getElem?_eq_getElem hupper
  have hold := Array.getElem?_eq_getElem hlower
  refine ⟨boxes[upper], boxes[lower], ?_, hold, ?_⟩
  · rw [getElem?_keepBelow_of_ne hne.symm, habove]
  · simp only [keepBelow, habove, Array.getElem?_modify, if_true, hold, Option.map_some]
    split
    · next hlt => rw [max_eq_right hlt.le]
    · next hlt => rw [max_eq_left (not_lt.1 hlt)]

/-- A sweep makes a step from every node to the one after it. -/
theorem isChain_pushes_sweep (hnodup : ids.Nodup) (hlt : ∀ id ∈ ids, id < boxes.size) :
    ids.IsChain (Pushes gap boxes (sweep gap ids boxes)) := by
  fun_induction sweep gap ids boxes with
  | case1 upper lower rest boxes ih =>
    have hsize := size_of_map_atTop (map_atTop_keepBelow gap upper lower boxes)
    obtain ⟨hupper, hlower, -⟩ := List.forall_mem_cons.1 hlt |>.imp_right List.forall_mem_cons.1
    obtain ⟨hnot, hnodup'⟩ := List.nodup_cons.1 hnodup
    have hne : upper ≠ lower := fun heq => hnot (heq ▸ List.mem_cons_self)
    rw [List.isChain_cons_cons]
    constructor
    · -- The rest of the sweep moves neither of the two.
      rw [Pushes, getElem?_sweep_of_notMem_tail fun hmem => hnot (List.mem_cons_of_mem _ hmem),
        getElem?_sweep_of_notMem_tail (List.nodup_cons.1 hnodup').1]
      exact pushes_keepBelow hne hupper hlower
    · -- The step before it moves none of the nodes behind.
      have hlt' : ∀ id ∈ lower :: rest, id < (keepBelow gap upper lower boxes).size :=
        fun id hid => hsize ▸ hlt id (List.mem_cons_of_mem _ hid)
      refine (ih hnodup' hlt').imp_of_mem_tail_imp fun i j _ hj hpush => ?_
      have hj' : lower ≠ j := fun heq => (List.nodup_cons.1 hnodup').1 (heq ▸ hj)
      rwa [Pushes, getElem?_keepBelow_of_ne hj'] at hpush
  | case2 ids boxes hshort =>
    rcases ids with - | ⟨upper, - | ⟨lower, rest⟩⟩
    · exact .nil
    · exact .singleton upper
    · exact absurd rfl (hshort upper lower rest)

/-- After a sweep every node stands below the one before it. -/
theorem isChain_sweep (hnodup : ids.Nodup) (hlt : ∀ id ∈ ids, id < boxes.size) :
    ids.IsChain (Above gap (sweep gap ids boxes)) :=
  (isChain_pushes_sweep hnodup hlt).imp fun _ _ => Pushes.above

/-- Where every node has a box, none is left out of those to be sorted. -/
theorem map_snd_filterMap (hlt : ∀ id ∈ ids, id < boxes.size) :
    (ids.filterMap fun id => boxes[id]?.map fun box => (box.y, id)).map (·.2) = ids := by
  rw [List.map_filterMap]
  refine (List.filterMap_eq_map_iff_forall_eq_some.2 fun id hid => ?_).trans ids.map_id
  rw [Array.getElem?_eq_getElem (hlt id hid)]
  rfl

/-- Nodes that have boxes are only put in another order. -/
theorem fromTop_perm (hlt : ∀ id ∈ ids, id < boxes.size) : (fromTop boxes ids).Perm ids :=
  ((List.mergeSort_perm _ _).map _).trans (.of_eq (map_snd_filterMap hlt))

/-! ### Heights -/

/-- Boxes that are moved up and down keep their heights. -/
theorem forall_height_of_map_atTop {boxes' : Array (Box Rat)}
    (h : boxes'.map Box.atTop = boxes.map Box.atTop) (hheight : ∀ box ∈ boxes, 0 ≤ box.height) :
    ∀ box ∈ boxes', 0 ≤ box.height := by
  intro box hbox
  have hmem : box.atTop ∈ boxes.map Box.atTop := h ▸ Array.mem_map_of_mem hbox
  obtain ⟨old, hold, heq⟩ := Array.mem_map.1 hmem
  have hsame : old.atTop.height = box.atTop.height := congrArg Box.height heq
  exact hsame ▸ hheight old hold

/-- Where no height is negative, nodes that stand below one another one by one stand apart. -/
theorem apart_of_isChain (hgap : 0 ≤ gap) (hheight : ∀ box ∈ boxes, 0 ≤ box.height)
    (h : ids.IsChain (Above gap boxes)) : Apart gap boxes ids := by
  have : IsTrans NodeId (Above gap boxes) := ⟨fun _ _ _ h h' => h.trans hgap hheight h'⟩
  have : Std.Symm fun i j => Above gap boxes i j ∨ Above gap boxes j i := ⟨fun _ _ => Or.symm⟩
  have hpairwise : ids.Pairwise fun i j => Above gap boxes i j ∨ Above gap boxes j i :=
    (List.isChain_iff_pairwise.1 h).imp Or.inl
  exact fun i hi j hj hne => hpairwise.forall hi hj hne

theorem apart_separate (hgap : 0 ≤ gap) (hheight : ∀ box ∈ boxes, 0 ≤ box.height)
    (hnodup : ids.Nodup) (hlt : ∀ id ∈ ids, id < boxes.size) :
    Apart gap (separate gap ids boxes) ids := by
  have hperm := fromTop_perm hlt
  have hchain : (fromTop boxes ids).IsChain (Above gap (separate gap ids boxes)) :=
    isChain_sweep (hperm.nodup_iff.2 hnodup) fun id hid => hlt id (hperm.mem_iff.1 hid)
  have hkept := forall_height_of_map_atTop (map_atTop_sweep gap (fromTop boxes ids) boxes) hheight
  intro i hi j hj hne
  exact apart_of_isChain hgap hkept hchain i (hperm.mem_iff.2 hi) j (hperm.mem_iff.2 hj) hne

/-! ### Settled columns -/

variable {settings : Settings Rat} (hsettings : settings.Regular)
  (inputsOf : Array (List NodeId))

include hsettings

theorem apart_settle {column : Column Rat} (hheight : ∀ box ∈ boxes, 0 ≤ box.height)
    (hnodup : column.ids.Nodup) (hlt : ∀ id ∈ column.ids, id < boxes.size) :
    Apart (settings.minSeparation column.fanIn) (settle settings inputsOf boxes column)
      column.ids := by
  have hkept := map_atTop_centreColumn inputsOf boxes column
  have hsize := size_of_map_atTop hkept
  exact apart_separate (hsettings.minSeparation_nonneg _) (forall_height_of_map_atTop hkept hheight)
    hnodup (hsize ▸ hlt)

/-- What one column has settled to the later ones leave alone. -/
theorem apart_foldl_settle {columns : List (Column Rat)}
    (hdisjoint : columns.Pairwise fun left right => ∀ id ∈ left.ids, id ∉ right.ids)
    (hnodup : ∀ column ∈ columns, column.ids.Nodup)
    (hlt : ∀ column ∈ columns, ∀ id ∈ column.ids, id < boxes.size)
    (hheight : ∀ box ∈ boxes, 0 ≤ box.height) :
    ∀ column ∈ columns, Apart (settings.minSeparation column.fanIn)
      (columns.foldl (settle settings inputsOf) boxes) column.ids := by
  induction columns generalizing boxes with
  | nil => exact List.forall_mem_nil _
  | cons first columns ih =>
    rw [List.pairwise_cons] at hdisjoint
    rw [List.forall_mem_cons] at hnodup hlt
    have hkept := map_atTop_settle settings inputsOf boxes first
    have hsize := size_of_map_atTop hkept
    rw [List.forall_mem_cons, List.foldl_cons]
    constructor
    · -- The later columns hold none of the nodes of this one.
      refine (apart_settle hsettings inputsOf hheight hnodup.1 hlt.1).congr fun id hid => ?_
      exact getElem?_foldl_settle_of_notMem
        (fun column hcolumn => hdisjoint.1 column hcolumn id hid) ..
    · exact ih hdisjoint.2 hnodup.2 (hsize ▸ hlt.2) (forall_height_of_map_atTop hkept hheight)

/-! ### The whole placement -/

omit hsettings in
theorem Above.shiftToMargin (h : Above gap boxes upper lower) (margin : Rat) :
    Above gap (shiftToMargin margin boxes) upper lower := by
  obtain ⟨above, below, habove, hbelow, hle⟩ := h
  obtain ⟨shift, hshift⟩ := exists_shift margin boxes
  rw [Above, hshift, hshift, habove, hbelow]
  refine ⟨_, _, rfl, rfl, ?_⟩
  rw [Box.bottom] at hle ⊢
  linarith

omit hsettings in
/-- A shift of the drawing keeps what stands apart. -/
theorem Apart.shiftToMargin (h : Apart gap boxes ids) (margin : Rat) :
    Apart gap (shiftToMargin margin boxes) ids := fun i hi j hj hne =>
  (h i hi j hj hne).imp (Above.shiftToMargin · margin) (Above.shiftToMargin · margin)

omit hsettings in
theorem exists_height_of_mem_stacked {metrics : List (Metrics Rat)} {box : Box Rat}
    (h : box ∈ stacked settings metrics) : ∃ m ∈ metrics, m.height = box.height := by
  have hmem : box.size ∈ metrics.map fun m => (m.width, m.height) := by
    rw [← map_size_stacked settings]
    exact List.mem_map_of_mem (Array.mem_toList_iff.2 h)
  obtain ⟨m, hm, heq⟩ := List.mem_map.1 hmem
  exact ⟨m, hm, congrArg Prod.snd heq⟩

omit hsettings in
theorem forall_height_stacked {metrics : List (Metrics Rat)}
    (hheight : ∀ m ∈ metrics, 0 ≤ m.height) :
    ∀ box ∈ stacked settings metrics, 0 ≤ box.height := by
  intro box hbox
  obtain ⟨m, hm, heq⟩ := exists_height_of_mem_stacked hbox
  exact heq ▸ hheight m hm

/-- In the drawing the nodes of every column stand apart. -/
theorem apart_place (inputsOf : List (List NodeId)) {metrics : List (Metrics Rat)}
    (hheight : ∀ m ∈ metrics, 0 ≤ m.height) {column : Column Rat}
    (hcolumn : column ∈ columns metrics) :
    Apart (settings.minSeparation column.fanIn) (place settings inputsOf metrics) column.ids := by
  have hlt : ∀ column ∈ columns metrics, ∀ id ∈ column.ids,
      id < (stacked settings metrics).size := by
    intro column hcolumn id hid
    rw [size_stacked]
    exact lt_of_mem_ids hcolumn hid
  rw [place_eq]
  exact (apart_foldl_settle hsettings inputsOf.toArray (disjoint_columns metrics)
    (fun _ => nodup_ids) hlt (forall_height_stacked hheight) column hcolumn).shiftToMargin _

end Schematic.Layout
