import Mathlib.Data.Prod.Lex
import Schematic.Proofs.Layout.Separation

/-!
# A sweep makes the least moves

Before a column is swept its nodes are put in order from the top down, of two at one height the one
with the smaller number first (`pairwise_fromTop`), and there is no other such order
(`fromTop_eq_of_perm`). The sweep lets no node come up and leaves each one at least the gap below
the one before it; and no node could stand higher if that is to be so (`movesLeast_separate`). Where
no negative height eats up the gap the nodes stay in that order, so they stand as they are to stand
and a second sweep finds nothing to do (`separate_moves_least`).
-/

namespace Schematic.Layout

variable {gap : Rat} {boxes boxes' : Array (Box Rat)} {upper lower id : NodeId}
  {ids order : List NodeId}

/-! ### From the top down -/

/-- The first node comes before the second one from the top down; of two at one height, the one
with the smaller number does. -/
def Before (boxes : Array (Box Rat)) (first second : NodeId) : Prop :=
  ∃ box other, boxes[first]? = some box ∧ boxes[second]? = some other ∧
    (box.y < other.y ∨ box.y = other.y ∧ first < second)

theorem before_iff_toLex_lt {box other : Box Rat} (hbox : boxes[upper]? = some box)
    (hother : boxes[lower]? = some other) :
    Before boxes upper lower ↔ toLex (box.y, upper) < toLex (other.y, lower) := by
  rw [Prod.Lex.toLex_lt_toLex]
  constructor
  · rintro ⟨box', other', hbox', hother', h⟩
    obtain rfl := Option.some.inj (hbox.symm.trans hbox')
    obtain rfl := Option.some.inj (hother.symm.trans hother')
    exact h
  · exact fun h => ⟨box, other, hbox, hother, h⟩

theorem Before.asymm (h : Before boxes upper lower) : ¬ Before boxes lower upper := by
  have hbefore := h
  obtain ⟨box, other, hbox, hother, -⟩ := hbefore
  rw [before_iff_toLex_lt hbox hother] at h
  rw [before_iff_toLex_lt hother hbox]
  exact h.asymm

theorem Before.irrefl (id : NodeId) : ¬ Before boxes id id := fun h => h.asymm h

/-- Nodes are sorted by how far down they stand and, at one height, by their numbers. -/
theorem isLE_then_compare {a b : Rat × NodeId} :
    ((Scalar.order a.1 b.1).then (compare a.2 b.2)).isLE = true ↔ toLex a ≤ toLex b := by
  rw [Prod.Lex.toLex_le_toLex]
  show ((if a.1 < b.1 then Ordering.lt else if b.1 < a.1 then .gt else .eq).then _).isLE = true ↔ _
  split
  · next hlt => exact iff_of_true rfl (.inl hlt)
  · next hlt =>
    split
    · next hgt => exact iff_of_false nofun (not_or.2 ⟨hlt, fun h => hgt.ne h.1.symm⟩)
    · next hgt =>
      have heq : a.1 = b.1 := le_antisymm (not_lt.1 hgt) (not_lt.1 hlt)
      rw [Ordering.eq_then, Nat.isLE_compare]
      simp [heq]

/-- Nodes are put in order from the top down. -/
theorem pairwise_fromTop (boxes : Array (Box Rat)) (hnodup : ids.Nodup) :
    (fromTop boxes ids).Pairwise (Before boxes) := by
  have hgiven : (ids.filterMap fun id => boxes[id]?.map fun box => (box.y, id)).Pairwise
      fun a b => a.2 ≠ b.2 := by
    rw [List.pairwise_filterMap]
    refine hnodup.imp fun hne a ha b hb => ?_
    obtain ⟨-, -, rfl⟩ := Option.map_eq_some_iff.1 ha
    obtain ⟨-, -, rfl⟩ := Option.map_eq_some_iff.1 hb
    exact hne
  have hplaced : ∀ placed ∈ ids.filterMap fun id => boxes[id]?.map fun box => (box.y, id),
      ∃ box, boxes[placed.2]? = some box ∧ (box.y, placed.2) = placed := by
    intro placed hmem
    obtain ⟨id, -, hid⟩ := List.mem_filterMap.1 hmem
    obtain ⟨box, hbox, rfl⟩ := Option.map_eq_some_iff.1 hid
    exact ⟨box, hbox, rfl⟩
  have htrans : ∀ a b c : Rat × NodeId,
      ((Scalar.order a.1 b.1).then (compare a.2 b.2)).isLE = true →
      ((Scalar.order b.1 c.1).then (compare b.2 c.2)).isLE = true →
      ((Scalar.order a.1 c.1).then (compare a.2 c.2)).isLE = true := by
    intro a b c hab hbc
    rw [isLE_then_compare] at hab hbc ⊢
    exact hab.trans hbc
  have htotal : ∀ a b : Rat × NodeId, (((Scalar.order a.1 b.1).then (compare a.2 b.2)).isLE ||
      ((Scalar.order b.1 a.1).then (compare b.2 a.2)).isLE) = true := by
    intro a b
    rw [Bool.or_eq_true, isLE_then_compare, isLE_then_compare]
    exact le_total ..
  rw [fromTop, List.pairwise_map]
  refine ((List.pairwise_mergeSort htrans htotal _).and
    (((List.mergeSort_perm _ _).pairwise_iff Ne.symm).2 hgiven)).imp_of_mem
    fun {a b} ha hb ⟨hle, hne⟩ => ?_
  obtain ⟨box, hbox, hbox'⟩ := hplaced a (List.mem_mergeSort.1 ha)
  obtain ⟨other, hother, hother'⟩ := hplaced b (List.mem_mergeSort.1 hb)
  rw [isLE_then_compare] at hle
  rw [before_iff_toLex_lt hbox hother, hbox', hother']
  -- Nodes of different numbers do not tie.
  exact hle.lt_of_not_ge fun hge => hne (congrArg (·.2) (toLex.injective (hle.antisymm hge)))

theorem nodup_of_pairwise_before (h : ids.Pairwise (Before boxes)) : ids.Nodup :=
  h.imp fun {i j} (hbefore : Before boxes i j) (heq : i = j) => Before.irrefl j (heq ▸ hbefore)

/-- There is one order from the top down. -/
theorem fromTop_eq_of_perm (hlt : ∀ id ∈ ids, id < boxes.size) (hperm : order.Perm ids)
    (h : order.Pairwise (Before boxes)) : fromTop boxes ids = order := by
  have hnodup : ids.Nodup := hperm.nodup_iff.1 (nodup_of_pairwise_before h)
  exact ((fromTop_perm hlt).trans hperm.symm).eq_of_pairwise
    (fun _ _ _ _ hab hba => absurd hba hab.asymm) (pairwise_fromTop boxes hnodup) h

/-- Two drawings in which nodes stand in one order agree on which of them comes before which. -/
theorem before_iff_of_pairwise (h : order.Pairwise (Before boxes))
    (h' : order.Pairwise (Before boxes')) :
    ∀ i ∈ order, ∀ j ∈ order, (Before boxes' i j ↔ Before boxes i j) := by
  intro i hi j hj
  have hboth := h.and h'
  have hforward : order.Pairwise fun i j => (Before boxes' i j ↔ Before boxes i j) :=
    hboth.imp fun hb => iff_of_true hb.2 hb.1
  have hback : order.Pairwise fun i j => (Before boxes' j i ↔ Before boxes j i) :=
    hboth.imp fun hb => iff_of_false hb.2.asymm hb.1.asymm
  have hself : ∀ id ∈ order, (Before boxes' id id ↔ Before boxes id id) := fun id _ =>
    iff_of_false (Before.irrefl id) (Before.irrefl id)
  exact hforward.forall_of_forall_of_flip hself hback hi hj

/-! ### Positions -/

/-- How far down a node stands. -/
def yAt (boxes : Array (Box Rat)) (id : NodeId) : Rat := boxes[id]?.elim 0 (·.y)

theorem yAt_of_getElem? {box : Box Rat} (h : boxes[id]? = some box) : yAt boxes id = box.y := by
  rw [yAt, h, Option.elim_some]

/-- Boxes that are moved up and down differ in nothing but how far down they are. -/
theorem getElem?_of_map_atTop (h : boxes'.map Box.atTop = boxes.map Box.atTop) (id : NodeId) :
    boxes'[id]? = boxes[id]?.map fun box => { box with y := yAt boxes' id } := by
  have hat := congrArg (·[id]?) h
  simp only [Array.getElem?_map] at hat
  cases hnew : boxes'[id]? with
  | none =>
    rw [hnew, Option.map_none, eq_comm, Option.map_eq_none_iff] at hat
    rw [hat, Option.map_none]
  | some box =>
    rw [hnew, Option.map_some, eq_comm, Option.map_eq_some_iff] at hat
    obtain ⟨old, hold, heq⟩ := hat
    rw [hold, Option.map_some, yAt_of_getElem? hnew]
    simp only [Box.atTop, Box.mk.injEq] at heq
    obtain ⟨hx, -, hwidth, hheight⟩ := heq
    rw [hx, hwidth, hheight]

/-- Positions for nodes that are to stand in an order: none of them is above the node's own, and
each is at least `gap` below the node before it. -/
structure Spaced (gap : Rat) (boxes : Array (Box Rat)) (order : List NodeId) (y : NodeId → Rat) :
    Prop where
  /-- No node comes up. -/
  falls : ∀ id ∈ order, ∀ box, boxes[id]? = some box → box.y ≤ y id
  /-- Every node stands below the one before it. -/
  apart : order.IsChain fun upper lower =>
    ∀ box, boxes[upper]? = some box → y upper + box.height + gap ≤ y lower

/-- A step of a sweep brings a node no further down than it has to. -/
theorem Pushes.yAt_eq (h : Pushes gap boxes boxes' upper lower)
    (hkept : boxes'.map Box.atTop = boxes.map Box.atTop) :
    ∃ box old, boxes[upper]? = some box ∧ boxes[lower]? = some old ∧
      yAt boxes' lower = max old.y (yAt boxes' upper + box.height + gap) := by
  obtain ⟨above, old, habove, hold, hlower⟩ := h
  have hupper := (getElem?_of_map_atTop hkept upper).symm.trans habove
  obtain ⟨box, hbox, rfl⟩ := Option.map_eq_some_iff.1 hupper
  exact ⟨box, old, hbox, hold, yAt_of_getElem? hlower⟩

/-- A sweep brings no node up, and each one down to stand below the one before it. -/
theorem spaced_of_isChain_pushes (hchain : order.IsChain (Pushes gap boxes boxes'))
    (hkept : boxes'.map Box.atTop = boxes.map Box.atTop)
    (hhead : ∀ id ∈ order.head?, boxes'[id]? = boxes[id]?) :
    Spaced gap boxes order (yAt boxes') := by
  constructor
  · refine hchain.induction _ _ (fun upper lower hpush _ box hbox => ?_) fun hne box hbox => ?_
    · obtain ⟨_, old, -, hold, hy⟩ := hpush.yAt_eq hkept
      obtain rfl := Option.some.inj (hold.symm.trans hbox)
      exact hy ▸ le_max_left ..
    · have hfirst := (hhead _ (List.head?_eq_some_head hne)).trans hbox
      exact (yAt_of_getElem? hfirst).ge
  · refine hchain.imp fun upper lower hpush box hbox => ?_
    obtain ⟨above, _, habove, -, hy⟩ := hpush.yAt_eq hkept
    obtain rfl := Option.some.inj (habove.symm.trans hbox)
    exact hy ▸ le_max_right ..

/-- No node can stand higher than where a sweep brings it to. -/
theorem yAt_le_of_spaced {y : NodeId → Rat} (hspaced : Spaced gap boxes order y)
    (hchain : order.IsChain (Pushes gap boxes boxes'))
    (hkept : boxes'.map Box.atTop = boxes.map Box.atTop)
    (hhead : ∀ id ∈ order.head?, yAt boxes' id ≤ y id) : ∀ id ∈ order, yAt boxes' id ≤ y id := by
  induction order with
  | nil => exact List.forall_mem_nil _
  | cons upper rest ih =>
    have hupper := hhead upper rfl
    refine List.forall_mem_cons.2 ⟨hupper, ih ⟨fun id hid => ?_, hspaced.apart.tail⟩ hchain.tail ?_⟩
    · exact hspaced.falls id (List.mem_cons_of_mem _ hid)
    · intro lower hlower
      obtain ⟨hpush, -⟩ := List.isChain_cons.1 hchain
      obtain ⟨hbelow, -⟩ := List.isChain_cons.1 hspaced.apart
      obtain ⟨box, old, hbox, hold, hy⟩ := (hpush lower hlower).yAt_eq hkept
      have hmem : lower ∈ upper :: rest := List.mem_cons_of_mem _ (List.mem_of_mem_head? hlower)
      have hfalls := hspaced.falls lower hmem old hold
      have hapart := hbelow lower hlower box hbox
      rw [hy]
      exact max_le hfalls (by linarith)

/-! ### A second sweep -/

/-- Where the gap is not eaten up by a negative height, nodes that stand one below the other are in
order from the top down. -/
theorem pairwise_before_of_isChain (h : order.IsChain (Above gap boxes))
    (hlt : ∀ id ∈ order, id < boxes.size)
    (hpos : ∀ id ∈ order, ∀ box, boxes[id]? = some box → 0 < box.height + gap) :
    order.Pairwise (Before boxes) := by
  have hrises : order.IsChain fun i j => yAt boxes i < yAt boxes j := by
    refine h.imp_of_mem_imp fun i j hi hj => ?_
    rintro ⟨above, below, habove, hbelow, hle⟩
    have hheight := hpos i hi above habove
    rw [Box.bottom] at hle
    rw [yAt_of_getElem? habove, yAt_of_getElem? hbelow]
    linarith
  have : IsTrans NodeId fun i j => yAt boxes i < yAt boxes j := ⟨fun _ _ _ => lt_trans⟩
  refine (List.isChain_iff_pairwise.1 hrises).imp_of_mem fun {i j} hi hj hlow => ?_
  have habove := Array.getElem?_eq_getElem (hlt i hi)
  have hbelow := Array.getElem?_eq_getElem (hlt j hj)
  rw [yAt_of_getElem? habove, yAt_of_getElem? hbelow] at hlow
  exact ⟨_, _, habove, hbelow, .inl hlow⟩

theorem keepBelow_eq_self (h : Above gap boxes upper lower) :
    keepBelow gap upper lower boxes = boxes := by
  obtain ⟨above, below, habove, hbelow, hle⟩ := h
  apply Array.ext_getElem?
  intro j
  simp only [keepBelow, habove, Array.getElem?_modify]
  split
  · next heq => rw [← heq, hbelow, Option.map_some, if_neg (not_lt.2 hle)]
  · rfl

/-- A sweep moves no node where each of them stands far enough below the one before it. -/
theorem sweep_eq_self (h : ids.IsChain (Above gap boxes)) : sweep gap ids boxes = boxes := by
  fun_induction sweep gap ids boxes with
  | case1 upper lower rest boxes ih =>
    obtain ⟨habove, hrest⟩ := List.isChain_cons_cons.1 h
    rw [keepBelow_eq_self habove] at ih ⊢
    exact ih hrest
  | case2 => rfl

/-! ### The separation of a list -/

/-- The nodes of a list have been moved down as little as it takes to stand at least `gap` below
each other in the order in which they stood. -/
structure MovesLeast (gap : Rat) (boxes : Array (Box Rat)) (ids : List NodeId)
    (after : Array (Box Rat)) : Prop where
  /-- The order holds the nodes of the list. -/
  perm : (fromTop boxes ids).Perm ids
  /-- It is that from the top down. -/
  ordered : (fromTop boxes ids).Pairwise (Before boxes)
  /-- Other nodes stay where they are. -/
  others : ∀ id ∉ ids, after[id]? = boxes[id]?
  /-- Nothing is changed but how far down a node stands. -/
  onlyY (id : NodeId) : after[id]? = boxes[id]?.map fun box => { box with y := yAt after id }
  /-- No node comes up, and each stands at least the gap below the one before it. -/
  spaced : Spaced gap boxes (fromTop boxes ids) (yAt after)
  /-- Wherever else the nodes may stand so, none of them stands higher. -/
  least {y : NodeId → Rat} : Spaced gap boxes (fromTop boxes ids) y →
    ∀ id ∈ ids, yAt after id ≤ y id

theorem map_atTop_separate (gap : Rat) (ids : List NodeId) (boxes : Array (Box Rat)) :
    (separate gap ids boxes).map Box.atTop = boxes.map Box.atTop :=
  map_atTop_sweep ..

section

variable (gap : Rat) (hnodup : ids.Nodup) (hlt : ∀ id ∈ ids, id < boxes.size)

include hnodup hlt

theorem isChain_pushes_separate :
    (fromTop boxes ids).IsChain (Pushes gap boxes (separate gap ids boxes)) := by
  have hperm := fromTop_perm hlt
  exact isChain_pushes_sweep (hperm.nodup_iff.2 hnodup) fun id hid => hlt id (hperm.mem_iff.1 hid)

/-- The topmost node of the list stays where it is. -/
theorem getElem?_separate_of_mem_head? :
    ∀ id ∈ (fromTop boxes ids).head?, (separate gap ids boxes)[id]? = boxes[id]? := by
  intro id hid
  obtain ⟨rest, hrest⟩ := List.head?_eq_some_iff.1 hid
  have hnodup' : (fromTop boxes ids).Nodup := (fromTop_perm hlt).nodup_iff.2 hnodup
  refine getElem?_sweep_of_notMem_tail ?_ gap boxes
  rw [hrest] at hnodup' ⊢
  exact (List.nodup_cons.1 hnodup').1

theorem movesLeast_separate : MovesLeast gap boxes ids (separate gap ids boxes) := by
  have hperm := fromTop_perm hlt
  have hkept := map_atTop_separate gap ids boxes
  have hchain := isChain_pushes_separate gap hnodup hlt
  have hhead := getElem?_separate_of_mem_head? gap hnodup hlt
  refine ⟨hperm, pairwise_fromTop boxes hnodup, fun id hid => ?_, getElem?_of_map_atTop hkept,
    spaced_of_isChain_pushes hchain hkept hhead, fun hspaced id hid => ?_⟩
  · exact getElem?_sweep_of_notMem_tail
      (fun hmem => hid (hperm.mem_iff.1 (List.mem_of_mem_tail hmem))) gap boxes
  · refine yAt_le_of_spaced hspaced hchain hkept (fun first hfirst => ?_) id (hperm.mem_iff.2 hid)
    have hmem := List.mem_of_mem_head? hfirst
    have hbox := Array.getElem?_eq_getElem (hlt first (hperm.mem_iff.1 hmem))
    rw [yAt_of_getElem? ((hhead first hfirst).trans hbox)]
    exact hspaced.falls first hmem _ hbox

variable {gap} (hpos : ∀ id ∈ ids, ∀ box, boxes[id]? = some box → 0 < box.height + gap)

include hpos

/-- Where no height eats up the gap, the nodes stay in their order. -/
theorem pairwise_before_separate :
    (fromTop boxes ids).Pairwise (Before (separate gap ids boxes)) := by
  have hperm := fromTop_perm hlt
  have hkept := map_atTop_separate gap ids boxes
  have hchain := isChain_pushes_separate gap hnodup hlt
  refine pairwise_before_of_isChain (hchain.imp fun _ _ => Pushes.above) (fun id hid => ?_)
    fun id hid box hbox => ?_
  · rw [size_of_map_atTop hkept]
    exact hlt id (hperm.mem_iff.1 hid)
  · rw [getElem?_of_map_atTop hkept, Option.map_eq_some_iff] at hbox
    obtain ⟨old, hold, rfl⟩ := hbox
    exact hpos id (hperm.mem_iff.1 hid) old hold

/-- Then they stand as they are to stand, and moving them apart once more changes nothing. -/
theorem separate_separate :
    separate gap ids (separate gap ids boxes) = separate gap ids boxes := by
  have hchain := isChain_pushes_separate gap hnodup hlt
  have hsize := size_of_map_atTop (map_atTop_separate gap ids boxes)
  have hsame : fromTop (separate gap ids boxes) ids = fromTop boxes ids :=
    fromTop_eq_of_perm (fun id hid => hsize ▸ hlt id hid) (fromTop_perm hlt)
      (pairwise_before_separate hnodup hlt hpos)
  nth_rewrite 1 [separate]
  rw [hsame, sweep_eq_self (hchain.imp fun _ _ => Pushes.above)]

end

/-- **A sweep makes the least moves**: it moves the nodes of a list down, and no further than it
takes to keep them the gap apart in their order. Where no height is so negative as to eat up the
gap, they stay in that order, and a second sweep changes nothing. -/
theorem separate_moves_least (gap : Rat) (boxes : Array (Box Rat)) (hnodup : ids.Nodup)
    (hlt : ∀ id ∈ ids, id < boxes.size) :
    MovesLeast gap boxes ids (separate gap ids boxes) ∧
      ((∀ id ∈ ids, ∀ box, boxes[id]? = some box → 0 < box.height + gap) →
        (∀ i ∈ ids, ∀ j ∈ ids, (Before (separate gap ids boxes) i j ↔ Before boxes i j)) ∧
        separate gap ids (separate gap ids boxes) = separate gap ids boxes) := by
  refine ⟨movesLeast_separate gap hnodup hlt, fun hpos => ⟨fun i hi j hj => ?_, ?_⟩⟩
  · have hperm := fromTop_perm hlt
    exact before_iff_of_pairwise (pairwise_fromTop boxes hnodup)
      (pairwise_before_separate hnodup hlt hpos) i (hperm.mem_iff.2 hi) j (hperm.mem_iff.2 hj)
  · exact separate_separate hnodup hlt hpos

/-- Three boxes to be moved apart, of which the last one reaches upwards, and one that is not. -/
def mixed : Array (Box Rat) :=
  #[⟨0, 25, 50, 40⟩, ⟨0, 10, 50, 40⟩, ⟨0, 0, 50, 40⟩, ⟨0, 20, 50, -3⟩]

/-- The box that reaches upwards is pushed down, and lets the one below it come closer. -/
theorem separate_moves_least_mixed :
    let after := separate 5 [3, 0, 1] mixed
    fromTop mixed [3, 0, 1] = [1, 3, 0] ∧ after.toList.map (·.y) = [57, 10, 0, 55] ∧
      MovesLeast 5 mixed [3, 0, 1] after ∧ (Before after 3 0 ↔ Before mixed 3 0) ∧
      separate 5 [3, 0, 1] after = after := by
  have hpos : ∀ id ∈ [3, 0, 1], ∀ box ∈ mixed[id]?, 0 < box.height + 5 := by decide +kernel
  have hnodup : [3, 0, 1].Nodup := by decide
  have hfirst : fromTop mixed [3, 0, 1] = [1, 3, 0] := by
    have habove : Before mixed 1 3 := ⟨_, _, rfl, rfl, .inl (by decide +kernel)⟩
    have hbelow : Before mixed 3 0 := ⟨_, _, rfl, rfl, .inl (by decide +kernel)⟩
    have hends : Before mixed 1 0 := ⟨_, _, rfl, rfl, .inl (by decide +kernel)⟩
    exact fromTop_eq_of_perm (by decide) (by decide) (by simp [habove, hbelow, hends])
  obtain ⟨hmoves, hkept⟩ := separate_moves_least 5 mixed hnodup (by decide)
  obtain ⟨horder, hagain⟩ := hkept hpos
  have hplaces : (separate 5 [3, 0, 1] mixed).toList.map (·.y) = [57, 10, 0, 55] := by
    rw [separate, hfirst]
    decide +kernel
  exact ⟨hfirst, hplaces, hmoves, horder 3 (by decide) 0 (by decide), hagain⟩

end Schematic.Layout
