import Schematic.Layout.Placement

/-!
# What the passes of a placement leave alone

The boxes are spread sideways once, and every later pass moves boxes up and down and changes
nothing else of them (`map_atTop_stacked`, `map_atTop_place`). No pass changes a size, so every node
keeps the one it was given (`map_size_place`). The pass that settles a column touches no box of
another one (`getElem?_settle_of_notMem`).
-/

namespace Schematic

variable {α : Type}

/-- The width and the height of a box. -/
def Box.size (box : Box α) : α × α := (box.width, box.height)

variable [Scalar α]

/-- The box moved up to the top: all that is known of it but how far down it is. -/
def Box.atTop (box : Box α) : Box α := { box with y := Scalar.zero }

namespace Layout

/-! ### Passes and views -/

/-- What no step of a pass changes the pass does not change. -/
theorem foldl_keeps {β γ δ : Type} (view : γ → δ) {pass : γ → β → γ} {items : List β}
    (h : ∀ item ∈ items, ∀ state, view (pass state item) = view state) (state : γ) :
    view (items.foldl pass state) = view state := by
  induction items generalizing state with
  | nil => rfl
  | cons item items ih =>
    rw [List.forall_mem_cons] at h
    rw [List.foldl_cons, ih h.2, h.1]

/-- A change of an item is a change of what is seen of it. -/
theorem modify_map {β γ : Type} {view : β → γ} {change : β → β} {change' : γ → γ}
    (h : ∀ item, change' (view item) = view (change item)) (i : Nat) (items : Array β) :
    (items.map view).modify i change' = (items.modify i change).map view := by
  apply Array.ext_getElem?
  intro j
  simp only [Array.getElem?_modify, Array.getElem?_map]
  split
  · simp only [Option.map_map, Function.comp_def, h]
  · rfl

theorem map_modify {β γ : Type} {view : β → γ} {change : β → β}
    (h : ∀ item, view (change item) = view item) (i : Nat) (items : Array β) :
    (items.modify i change).map view = items.map view := by
  have hseen : ∀ item, id (view item) = view (change item) := fun item => (h item).symm
  rw [← modify_map hseen]
  apply Array.ext_getElem?
  intro j
  simp [Array.getElem?_modify]

/-! ### Up and down -/

theorem map_atTop_stack (gap y : α) (members : List (NodeId × Metrics α))
    (boxes : Array (Box α)) :
    (stack gap y members boxes).map Box.atTop = boxes.map Box.atTop := by
  induction members generalizing y boxes with
  | nil => rfl
  | cons member members ih =>
    rw [stack, ih]
    exact map_modify (fun _ => by rfl) member.1 boxes

theorem map_atTop_stackColumn (settings : Settings α) (boxes : Array (Box α))
    (column : Column α) :
    (stackColumn settings boxes column).map Box.atTop = boxes.map Box.atTop :=
  map_atTop_stack ..

theorem map_atTop_centre (inputs : List NodeId) (id : NodeId) (boxes : Array (Box α)) :
    (centre inputs id boxes).map Box.atTop = boxes.map Box.atTop := by
  unfold centre
  split
  · rfl
  · exact map_modify (fun _ => by rfl) id boxes

theorem map_atTop_keepBelow (gap : α) (upper lower : NodeId) (boxes : Array (Box α)) :
    (keepBelow gap upper lower boxes).map Box.atTop = boxes.map Box.atTop := by
  unfold keepBelow
  split
  · rfl
  · refine map_modify (fun box => ?_) lower boxes
    split <;> rfl

theorem map_atTop_sweep (gap : α) (ids : List NodeId) (boxes : Array (Box α)) :
    (sweep gap ids boxes).map Box.atTop = boxes.map Box.atTop := by
  fun_induction sweep gap ids boxes with
  | case1 upper lower rest boxes ih => rw [ih, map_atTop_keepBelow]
  | case2 => rfl

/-- The first half of settling a column: its gates are centred, if it is one of gates. -/
def centreColumn (inputsOf : Array (List NodeId)) (boxes : Array (Box α)) (column : Column α) :
    Array (Box α) :=
  if 0 < column.level then
    column.ids.foldl (fun boxes id => centre (inputsOf[id]?.getD []) id boxes) boxes
  else boxes

theorem settle_eq (settings : Settings α) (inputsOf : Array (List NodeId))
    (boxes : Array (Box α)) (column : Column α) :
    settle settings inputsOf boxes column =
      separate (settings.minSeparation column.fanIn) column.ids
        (centreColumn inputsOf boxes column) :=
  rfl

theorem map_atTop_centreColumn (inputsOf : Array (List NodeId)) (boxes : Array (Box α))
    (column : Column α) :
    (centreColumn inputsOf boxes column).map Box.atTop = boxes.map Box.atTop := by
  unfold centreColumn
  split
  · exact foldl_keeps (Array.map Box.atTop) (fun id _ boxes => map_atTop_centre _ id boxes) boxes
  · rfl

theorem map_atTop_settle (settings : Settings α) (inputsOf : Array (List NodeId))
    (boxes : Array (Box α)) (column : Column α) :
    (settle settings inputsOf boxes column).map Box.atTop = boxes.map Box.atTop := by
  rw [settle_eq, separate, map_atTop_sweep, map_atTop_centreColumn]

theorem map_atTop_shiftToMargin (margin : α) (boxes : Array (Box α)) :
    (shiftToMargin margin boxes).map Box.atTop = boxes.map Box.atTop := by
  unfold shiftToMargin
  split
  · rfl
  · split
    · rw [Array.map_map]
      rfl
    · rfl

/-! ### The stages of a placement -/

/-- A box of its node's size for every node. None of them has a place yet. -/
def unplaced (metrics : List (Metrics α)) : Array (Box α) :=
  (metrics.map fun m => ⟨Scalar.zero, Scalar.zero, m.width, m.height⟩).toArray

/-- The boxes in their columns, stacked and not yet settled. -/
def stacked (settings : Settings α) (metrics : List (Metrics α)) : Array (Box α) :=
  (columns metrics).foldl (stackColumn settings)
    (spread settings settings.marginX (columns metrics) (unplaced metrics))

theorem place_eq (settings : Settings α) (inputsOf : List (List NodeId))
    (metrics : List (Metrics α)) :
    place settings inputsOf metrics = shiftToMargin settings.marginY
      ((columns metrics).foldl (settle settings inputsOf.toArray) (stacked settings metrics)) :=
  rfl

theorem map_atTop_foldl_stackColumn (settings : Settings α) (columns : List (Column α))
    (boxes : Array (Box α)) :
    (columns.foldl (stackColumn settings) boxes).map Box.atTop = boxes.map Box.atTop :=
  foldl_keeps (Array.map Box.atTop)
    (fun column _ boxes => map_atTop_stackColumn settings boxes column) boxes

theorem map_atTop_stacked (settings : Settings α) (metrics : List (Metrics α)) :
    (stacked settings metrics).map Box.atTop =
      (spread settings settings.marginX (columns metrics) (unplaced metrics)).map Box.atTop :=
  map_atTop_foldl_stackColumn ..

theorem map_atTop_foldl_settle (settings : Settings α) (inputsOf : Array (List NodeId))
    (columns : List (Column α)) (boxes : Array (Box α)) :
    (columns.foldl (settle settings inputsOf) boxes).map Box.atTop = boxes.map Box.atTop :=
  foldl_keeps (Array.map Box.atTop)
    (fun column _ boxes => map_atTop_settle settings inputsOf boxes column) boxes

/-- How far down a box is apart, the boxes are as they were stacked. -/
theorem map_atTop_place (settings : Settings α) (inputsOf : List (List NodeId))
    (metrics : List (Metrics α)) :
    (place settings inputsOf metrics).map Box.atTop =
      (stacked settings metrics).map Box.atTop := by
  rw [place_eq, map_atTop_shiftToMargin, map_atTop_foldl_settle]

theorem size_of_map_atTop {boxes boxes' : Array (Box α)}
    (h : boxes'.map Box.atTop = boxes.map Box.atTop) : boxes'.size = boxes.size := by
  simpa using congrArg Array.size h

/-! ### Sizes -/

theorem map_size_spread (settings : Settings α) (x : α) (columns : List (Column α))
    (boxes : Array (Box α)) :
    (spread settings x columns boxes).map Box.size = boxes.map Box.size := by
  induction columns generalizing x boxes with
  | nil => rfl
  | cons column columns ih =>
    rw [spread, ih]
    exact foldl_keeps (Array.map Box.size)
      (fun id _ boxes => map_modify (fun _ => by rfl) id boxes) boxes

theorem map_size_of_map_atTop {boxes boxes' : Array (Box α)}
    (h : boxes'.map Box.atTop = boxes.map Box.atTop) :
    boxes'.map Box.size = boxes.map Box.size := by
  have hsize : ∀ boxes : Array (Box α), (boxes.map Box.atTop).map Box.size = boxes.map Box.size :=
    fun _ => Array.map_map
  rw [← hsize, h, hsize]

theorem map_size_stacked (settings : Settings α) (metrics : List (Metrics α)) :
    (stacked settings metrics).toList.map Box.size = metrics.map fun m => (m.width, m.height) := by
  rw [← Array.toList_map, map_size_of_map_atTop (map_atTop_stacked settings metrics),
    map_size_spread, unplaced, List.map_toArray, List.map_map]
  rfl

/-- Every node gets a box of its size. -/
theorem map_size_place (settings : Settings α) (inputsOf : List (List NodeId))
    (metrics : List (Metrics α)) :
    (place settings inputsOf metrics).toList.map Box.size =
      metrics.map fun m => (m.width, m.height) := by
  rw [← Array.toList_map, map_size_of_map_atTop (map_atTop_place settings inputsOf metrics),
    Array.toList_map, map_size_stacked]

@[simp] theorem size_stacked (settings : Settings α) (metrics : List (Metrics α)) :
    (stacked settings metrics).size = metrics.length := by
  simpa using congrArg List.length (map_size_stacked settings metrics)

@[simp] theorem size_place (settings : Settings α) (inputsOf : List (List NodeId))
    (metrics : List (Metrics α)) : (place settings inputsOf metrics).size = metrics.length := by
  simpa using congrArg List.length (map_size_place settings inputsOf metrics)

/-! ### The other columns -/

theorem getElem?_centre_of_ne {id other : NodeId} (h : id ≠ other) (inputs : List NodeId)
    (boxes : Array (Box α)) : (centre inputs id boxes)[other]? = boxes[other]? := by
  unfold centre
  split
  · rfl
  · rw [Array.getElem?_modify, if_neg h]

theorem getElem?_keepBelow_of_ne {lower other : NodeId} (h : lower ≠ other) (gap : α)
    (upper : NodeId) (boxes : Array (Box α)) :
    (keepBelow gap upper lower boxes)[other]? = boxes[other]? := by
  unfold keepBelow
  split
  · rfl
  · rw [Array.getElem?_modify, if_neg h]

/-- The first node of a sweep stays where it is, and so do nodes that are not swept. -/
theorem getElem?_sweep_of_notMem_tail {ids : List NodeId} {other : NodeId} (h : other ∉ ids.tail)
    (gap : α) (boxes : Array (Box α)) : (sweep gap ids boxes)[other]? = boxes[other]? := by
  fun_induction sweep gap ids boxes with
  | case1 upper lower rest boxes ih =>
    rw [List.tail_cons, List.mem_cons, not_or] at h
    rw [ih h.2, getElem?_keepBelow_of_ne (Ne.symm h.1)]
  | case2 => rfl

theorem mem_of_mem_fromTop {boxes : Array (Box α)} {ids : List NodeId} {id : NodeId}
    (h : id ∈ fromTop boxes ids) : id ∈ ids := by
  obtain ⟨placed, hplaced, rfl⟩ := List.mem_map.1 h
  rw [List.mem_mergeSort, List.mem_filterMap] at hplaced
  obtain ⟨id, hid, heq⟩ := hplaced
  obtain ⟨box, -, rfl⟩ := Option.map_eq_some_iff.1 heq
  exact hid

/-- Settling a column leaves the other nodes where they are. -/
theorem getElem?_settle_of_notMem {column : Column α} {other : NodeId} (h : other ∉ column.ids)
    (settings : Settings α) (inputsOf : Array (List NodeId)) (boxes : Array (Box α)) :
    (settle settings inputsOf boxes column)[other]? = boxes[other]? := by
  -- Only nodes of the column are swept, and only they are centred.
  rw [settle_eq, separate,
    getElem?_sweep_of_notMem_tail fun hmem => h (mem_of_mem_fromTop (List.mem_of_mem_tail hmem))]
  unfold centreColumn
  split
  · exact foldl_keeps (·[other]?)
      (fun id hid boxes => getElem?_centre_of_ne (ne_of_mem_of_not_mem hid h) _ boxes) boxes
  · rfl

/-- So does settling several columns. -/
theorem getElem?_foldl_settle_of_notMem {columns : List (Column α)} {other : NodeId}
    (h : ∀ column ∈ columns, other ∉ column.ids) (settings : Settings α)
    (inputsOf : Array (List NodeId)) (boxes : Array (Box α)) :
    (columns.foldl (settle settings inputsOf) boxes)[other]? = boxes[other]? :=
  foldl_keeps (·[other]?) (fun column hcolumn boxes =>
    getElem?_settle_of_notMem (h column hcolumn) settings inputsOf boxes) boxes

end Layout

end Schematic
