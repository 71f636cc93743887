import Mathlib.Algebra.BigOperators.Group.List.Basic
import Mathlib.Tactic.FieldSimp
import Schematic.Proofs.Layout.Separation

/-!
# Gates stand with their operands

A gate is centred on the nodes that feed it, and then the sweep of its column may push it down. So
it comes to stand with its middle at theirs, or below that and exactly at the least distance from
another node of its column (`Rests`). What feeds it has settled before and moves no more, the later
columns hold other nodes, and the shift of the whole drawing moves everything alike; hence it is so
in the drawing (`rests_place`).
-/

namespace Schematic.Layout

variable {gap : Rat} {boxes boxes' : Array (Box Rat)} {upper lower id : NodeId}
  {ids inputs : List NodeId}

/-! ### Exact distances -/

/-- The second node stands exactly `gap` below the first one. -/
def Adjoins (gap : Rat) (boxes : Array (Box Rat)) (upper lower : NodeId) : Prop :=
  ∃ above below, boxes[upper]? = some above ∧ boxes[lower]? = some below ∧
    below.y = above.bottom + gap

theorem Adjoins.congr (h : Adjoins gap boxes upper lower) (hupper : boxes'[upper]? = boxes[upper]?)
    (hlower : boxes'[lower]? = boxes[lower]?) : Adjoins gap boxes' upper lower := by
  rw [Adjoins, hupper, hlower]
  exact h

theorem Adjoins.shiftToMargin (h : Adjoins gap boxes upper lower) (margin : Rat) :
    Adjoins gap (shiftToMargin margin boxes) upper lower := by
  obtain ⟨above, below, habove, hbelow, hy⟩ := h
  obtain ⟨shift, hshift⟩ := exists_shift margin boxes
  rw [Adjoins, hshift, hshift, habove, hbelow]
  refine ⟨_, _, rfl, rfl, ?_⟩
  rw [Box.bottom] at hy ⊢
  linarith

/-- A sweep leaves a node where it is, or brings it down to stand `gap` below another one. -/
theorem stays_or_adjoins_sweep (hnodup : ids.Nodup) (hlt : ∀ id ∈ ids, id < boxes.size)
    (hid : id ∈ ids) :
    (sweep gap ids boxes)[id]? = boxes[id]? ∨
      ∃ old y, boxes[id]? = some old ∧ old.y < y ∧
        (sweep gap ids boxes)[id]? = some { old with y := y } ∧
          ∃ upper ∈ ids, Adjoins gap (sweep gap ids boxes) upper id := by
  have hchain : ids.IsChain (Pushes gap boxes (sweep gap ids boxes)) :=
    isChain_pushes_sweep hnodup hlt
  obtain ⟨before, after, rfl⟩ := List.append_of_mem hid
  rcases List.eq_nil_or_concat before with rfl | ⟨before, upper, rfl⟩
  · exact .inl (getElem?_sweep_of_notMem_tail (List.nodup_cons.1 hnodup).1 gap boxes)
  · rw [List.concat_eq_append, List.append_assoc, List.singleton_append] at hchain ⊢
    obtain ⟨above, old, habove, hold, hnew⟩ := (List.isChain_append_cons_cons.1 hchain).2.1
    rcases le_or_gt (above.bottom + gap) old.y with hle | hlt
    · left
      rw [hnew, max_eq_left hle, hold]
    · rw [max_eq_right hlt.le] at hnew
      exact .inr ⟨old, _, hold, hlt, hnew, upper, by simp, above, _, habove, hnew, rfl⟩

/-! ### Centring -/

/-- The mean of the middles of the nodes that feed one. -/
def middle (boxes : Array (Box Rat)) (inputs : List NodeId) : Rat :=
  ((inputs.filterMap (boxes[·]?)).map Box.centreY).sum / inputs.length

theorem middle_congr (h : ∀ input ∈ inputs, boxes'[input]? = boxes[input]?) :
    middle boxes' inputs = middle boxes inputs := by
  rw [middle, middle, List.filterMap_congr h]

theorem centre_eq (h : inputs ≠ []) (id : NodeId) (boxes : Array (Box Rat)) :
    centre inputs id boxes =
      boxes.modify id fun box => { box with y := middle boxes inputs - box.height / 2 } := by
  simp only [centre, List.isEmpty_iff, h, if_false, Scalar.sum_rat]
  rfl

/-- A node is centred on what feeds it, whatever is done with other nodes. -/
theorem getElem?_foldl_centre (inputsOf : NodeId → List NodeId) (hnodup : ids.Nodup)
    (hid : id ∈ ids) (hne : inputsOf id ≠ []) (hinputs : ∀ input ∈ inputsOf id, input ∉ ids)
    (boxes : Array (Box Rat)) :
    (ids.foldl (fun boxes id => centre (inputsOf id) id boxes) boxes)[id]? =
      boxes[id]?.map fun box => { box with y := middle boxes (inputsOf id) - box.height / 2 } := by
  obtain ⟨before, after, rfl⟩ := List.append_of_mem hid
  obtain ⟨hbefore, hafter⟩ : id ∉ before ∧ id ∉ after := by
    have hmiddle := List.nodup_cons.1 (List.nodup_middle.1 hnodup)
    exact ⟨fun hmem => hmiddle.1 (by simp [hmem]), fun hmem => hmiddle.1 (by simp [hmem])⟩
  have hkept : ∀ (others : List NodeId) (boxes : Array (Box Rat)) (j : NodeId), j ∉ others →
      (others.foldl (fun boxes id => centre (inputsOf id) id boxes) boxes)[j]? = boxes[j]? := by
    intro others boxes j hj
    exact foldl_keeps (·[j]?) (fun other hother boxes =>
      getElem?_centre_of_ne (ne_of_mem_of_not_mem hother hj) _ boxes) boxes
  rw [List.foldl_append, List.foldl_cons, hkept after _ id hafter, centre_eq hne,
    Array.getElem?_modify, if_pos rfl, hkept before _ id hbefore]
  rw [middle_congr fun input hinput => hkept before boxes input fun hmem =>
    hinputs input hinput (List.mem_append_left _ hmem)]

/-! ### Settled columns -/

/-- A node stands with its middle at that of the nodes which feed it, or below that and exactly
`gap` below another one of the nodes. -/
def Rests (gap : Rat) (boxes : Array (Box Rat)) (ids inputs : List NodeId) (id : NodeId) : Prop :=
  ∃ box, boxes[id]? = some box ∧ (box.centreY = middle boxes inputs ∨
    middle boxes inputs < box.centreY ∧ ∃ upper ∈ ids, Adjoins gap boxes upper id)

theorem Rests.congr (h : Rests gap boxes ids inputs id) (hid : id ∈ ids)
    (hids : ∀ id ∈ ids, boxes'[id]? = boxes[id]?)
    (hinputs : ∀ input ∈ inputs, boxes'[input]? = boxes[input]?) :
    Rests gap boxes' ids inputs id := by
  obtain ⟨box, hbox, hrests⟩ := h
  refine ⟨box, (hids id hid).trans hbox, ?_⟩
  rw [middle_congr hinputs]
  refine hrests.imp_right fun ⟨hlt, upper, hupper, hadjoins⟩ => ⟨hlt, upper, hupper, ?_⟩
  exact hadjoins.congr (hids upper hupper) (hids id hid)

section

variable (settings : Settings Rat) (inputsOf : Array (List NodeId)) {column : Column Rat}
  (hnodup : column.ids.Nodup) (hid : id ∈ column.ids) (hfed : inputsOf[id]? = some inputs)
  (hne : inputs ≠ [])

include hnodup hid hfed hne

theorem rests_settle (hlevel : 0 < column.level) (hlt : ∀ id ∈ column.ids, id < boxes.size)
    (hinputs : ∀ input ∈ inputs, input ∉ column.ids) :
    Rests (settings.minSeparation column.fanIn) (settle settings inputsOf boxes column)
      column.ids inputs id := by
  have hsize := size_of_map_atTop (map_atTop_centreColumn inputsOf boxes column)
  have hperm : (fromTop (centreColumn inputsOf boxes column) column.ids).Perm column.ids :=
    fromTop_perm (hsize ▸ hlt)
  -- What feeds the node is of another column and keeps its place.
  have hmiddle : middle (settle settings inputsOf boxes column) inputs = middle boxes inputs :=
    middle_congr fun input hinput =>
      getElem?_settle_of_notMem (hinputs input hinput) settings inputsOf boxes
  obtain ⟨box, hbox⟩ : ∃ box, boxes[id]? = some box :=
    ⟨_, Array.getElem?_eq_getElem (hlt id hid)⟩
  have hcentred : (centreColumn inputsOf boxes column)[id]? =
      some { box with y := middle boxes inputs - box.height / 2 } := by
    have hfold := getElem?_foldl_centre (fun id => inputsOf[id]?.getD []) hnodup hid
      (by simpa [hfed] using hne) (by simpa [hfed] using hinputs) boxes
    rw [centreColumn, if_pos hlevel, hfold, hbox, hfed]
    rfl
  rw [Rests, hmiddle, settle_eq, separate]
  rcases stays_or_adjoins_sweep (hperm.nodup_iff.2 hnodup)
    (fun id hid => hsize ▸ hlt id (hperm.mem_iff.1 hid)) (hperm.mem_iff.2 hid) with
    hstays | ⟨old, y, hold, hy, hnew, upper, hupper, hadjoins⟩
  · refine ⟨_, hstays.trans hcentred, .inl ?_⟩
    simp [Box.centreY]
  · obtain rfl := Option.some.inj (hcentred.symm.trans hold)
    refine ⟨_, hnew, .inr ⟨?_, upper, hperm.mem_iff.1 hupper, hadjoins⟩⟩
    simp only [Box.centreY, Scalar.half_rat] at hy ⊢
    linarith

end

/-- What a column has settled to the later ones leave alone, and what feeds it has settled by
then. -/
theorem rests_foldl_settle (settings : Settings Rat) (inputsOf : Array (List NodeId))
    {metrics : List (Metrics Rat)} {column : Column Rat} (hcolumn : column ∈ columns metrics)
    (hid : id ∈ column.ids) (hfed : inputsOf[id]? = some inputs) (hne : inputs ≠ [])
    (hlevel : 0 < column.level) (hsize : boxes.size = metrics.length)
    (hinputs : ∀ input ∈ inputs, ∃ m, metrics[input]? = some m ∧ m.level < column.level) :
    Rests (settings.minSeparation column.fanIn)
      ((columns metrics).foldl (settle settings inputsOf) boxes) column.ids inputs id := by
  have hlower : ∀ input ∈ inputs, ∀ other ∈ columns metrics, column.level ≤ other.level →
      input ∉ other.ids := by
    intro input hinput other hother hle hmem
    obtain ⟨m, hm, hlt⟩ := hinputs input hinput
    obtain ⟨m', hm', hat⟩ := (mem_ids_iff hother).1 hmem
    obtain rfl := Option.some.inj (hm.symm.trans hm')
    omega
  -- The columns before this one may move what feeds the node, those behind it may not.
  obtain ⟨before, after, hsplit, -, hafter⟩ := exists_split hcolumn
  have hlt : ∀ id ∈ column.ids, id < (before.foldl (settle settings inputsOf) boxes).size := by
    intro id hid
    rw [size_of_map_atTop (map_atTop_foldl_settle settings inputsOf before boxes), hsize]
    exact lt_of_mem_ids hcolumn hid
  have hsettled := rests_settle settings inputsOf (nodup_ids hcolumn) hid hfed hne hlevel hlt
    fun input hinput => hlower input hinput column hcolumn le_rfl
  rw [hsplit, List.foldl_append, List.foldl_cons]
  refine hsettled.congr hid (fun j hj => ?_) fun input hinput => ?_
  · exact getElem?_foldl_settle_of_notMem (fun later hlater => (hafter later hlater).2 j hj) ..
  · refine getElem?_foldl_settle_of_notMem (fun later hlater => ?_) ..
    have hmem : later ∈ columns metrics := by
      rw [hsplit]
      simp [hlater]
    exact hlower input hinput later hmem (hafter later hlater).1.le

/-! ### The whole placement -/

theorem centreY_shift (box : Box Rat) (shift : Rat) :
    Box.centreY { box with y := box.y + shift } = box.centreY + shift :=
  add_right_comm ..

/-- Where all that feeds a node is there, its mean moves along if the middles do. -/
theorem middle_shift {shift : Rat} (hne : inputs ≠ []) (hlt : ∀ input ∈ inputs, input < boxes.size)
    (hshift : ∀ id : NodeId, boxes'[id]?.map Box.centreY =
      boxes[id]?.map fun box => box.centreY + shift) :
    middle boxes' inputs = middle boxes inputs + shift := by
  have hcount : (inputs.filterMap (boxes[·]?)).length = inputs.length := by
    rw [List.filterMap_length_eq_length]
    intro input hinput
    rw [Array.getElem?_eq_getElem (hlt input hinput), Option.isSome_some]
  have hcentres : (inputs.filterMap (boxes'[·]?)).map Box.centreY =
      (inputs.filterMap (boxes[·]?)).map fun box => box.centreY + shift := by
    simp only [List.map_filterMap, hshift]
  have hpos : (inputs.length : Rat) ≠ 0 := by simpa using hne
  rw [middle, hcentres, List.sum_map_add, List.map_const', List.sum_replicate, hcount, middle,
    nsmul_eq_mul]
  field_simp

theorem Rests.shiftToMargin (h : Rests gap boxes ids inputs id) (hne : inputs ≠ [])
    (hlt : ∀ input ∈ inputs, input < boxes.size) (margin : Rat) :
    Rests gap (shiftToMargin margin boxes) ids inputs id := by
  obtain ⟨box, hbox, hrests⟩ := h
  obtain ⟨shift, hshift⟩ := exists_shift margin boxes
  have hcentres : ∀ id : NodeId, (Layout.shiftToMargin margin boxes)[id]?.map Box.centreY =
      boxes[id]?.map fun box => box.centreY + shift := by
    intro id
    simp only [hshift, Option.map_map, Function.comp_def, centreY_shift]
  refine ⟨{ box with y := box.y + shift }, by rw [hshift, hbox, Option.map_some], ?_⟩
  rw [middle_shift hne hlt hcentres, centreY_shift]
  refine hrests.imp (fun heq => by rw [heq]) fun ⟨hlt, upper, hupper, hadjoins⟩ => ?_
  exact ⟨by linarith, upper, hupper, hadjoins.shiftToMargin margin⟩

/-- In the drawing a gate stands with what feeds it, or below that and exactly at the least distance
from another node of its column. -/
theorem rests_place (settings : Settings Rat) {inputsOf : List (List NodeId)}
    {metrics : List (Metrics Rat)} {column : Column Rat} (hcolumn : column ∈ columns metrics)
    (hid : id ∈ column.ids) (hfed : inputsOf[id]? = some inputs) (hne : inputs ≠ [])
    (hlevel : 0 < column.level)
    (hinputs : ∀ input ∈ inputs, ∃ m, metrics[input]? = some m ∧ m.level < column.level) :
    Rests (settings.minSeparation column.fanIn) (place settings inputsOf metrics)
      column.ids inputs id := by
  have hsize := size_of_map_atTop (map_atTop_foldl_settle settings inputsOf.toArray
    (columns metrics) (stacked settings metrics))
  rw [place_eq]
  refine (rests_foldl_settle settings inputsOf.toArray hcolumn hid (by simpa using hfed) hne hlevel
    (size_stacked settings metrics) hinputs).shiftToMargin hne (fun input hinput => ?_) _
  obtain ⟨m, hm, -⟩ := hinputs input hinput
  rw [hsize, size_stacked]
  exact (List.getElem?_eq_some_iff.1 hm).1

end Schematic.Layout
