import Mathlib.Data.List.Basic
import Mathlib.Tactic.Linarith
import Schematic.Diagram.Validity
import Schematic.Proofs.Levels
import Schematic.Proofs.Scalar

/-!
# The rules of placement

The rules speak of any two nodes of a level, and a check compares neighbours only. That is enough,
because the neighbours are those of a column in order from the top down (`pairwise_fromTop`,
`closePair?_eq_none_iff`). So in exact arithmetic a check of a diagram whose nodes carry the numbers
of their places passes it if and only if the diagram keeps the rules
(`Numbered.validateWith_eq_ok_iff`).
-/

namespace Schematic

/-- A node comes before another one from the top down; of two at one height, the one with the
smaller number does. -/
def Node.Before (upper lower : Node Rat) : Prop :=
  upper.box.y < lower.box.y ∨ upper.box.y = lower.box.y ∧ upper.id < lower.id

theorem Node.Before.y_le {upper lower : Node Rat} (h : upper.Before lower) :
    upper.box.y ≤ lower.box.y :=
  h.elim le_of_lt fun h => h.1.le

theorem Node.Before.asymm {upper lower : Node Rat} (h : upper.Before lower) :
    ¬ lower.Before upper := by
  rintro (hlt | ⟨heq, hid⟩)
  · exact absurd h.y_le (not_le.2 hlt)
  · rcases h with hlt | ⟨-, hid'⟩
    · exact absurd heq.le (not_le.2 hlt)
    · exact Nat.lt_asymm hid hid'

namespace Diagram

section

variable {α : Type} (diagram : Diagram α)

/-- Every node carries the number of its place. -/
def Numbered : Prop :=
  ∀ (id : NodeId) (node : Node α), diagram.nodes[id]? = some node → node.id = id

instance : Decidable diagram.Numbered :=
  decidable_of_iff (∀ (id : Nat) (h : id < diagram.nodes.size), diagram.nodes[id].id = id) <| by
    simp [Numbered, Array.getElem?_eq_some_iff]

/-- The largest fan-in on a level. -/
def fanInAt (level : Nat) : Nat :=
  Levels.highest ((diagram.nodes.toList.filter (·.level = level)).map (·.fanIn))

end

/-- What a check asks of a diagram, up to a tolerance. -/
structure KeepsRules (tolerance : Rat) (settings : Settings Rat) (diagram : Diagram Rat) :
    Prop where
  /-- It has a node. -/
  nonempty : diagram.nodes ≠ #[]
  /-- Every wire joins two nodes, from a lower level to a higher one. -/
  rises : ∀ wire ∈ diagram.wires, ∃ source target, diagram.node? wire.source = some source ∧
    diagram.node? wire.target = some target ∧ source.level < target.level
  /-- Any two nodes of a level keep their distance. -/
  apart : ∀ upper ∈ diagram.nodes, ∀ lower ∈ diagram.nodes, upper.level = lower.level →
    upper.Before lower → upper.box.bottom +
      settings.minSeparation (diagram.fanInAt upper.level) ≤ lower.box.y + tolerance
  /-- Every node lies on the canvas. -/
  onCanvas : ∀ node ∈ diagram.nodes, -tolerance ≤ node.box.x ∧ -tolerance ≤ node.box.y ∧
    node.box.right ≤ diagram.width + tolerance ∧ node.box.bottom ≤ diagram.height + tolerance

variable {tolerance gap : Rat} {settings : Settings Rat} {diagram : Diagram Rat}

/-- A larger tolerance accepts more. -/
theorem KeepsRules.mono {larger : Rat} (h : KeepsRules tolerance settings diagram)
    (hle : tolerance ≤ larger) : KeepsRules larger settings diagram where
  nonempty := h.nonempty
  rises := h.rises
  apart upper hupper lower hlower hlevel hbefore := by
    have happart := h.apart upper hupper lower hlower hlevel hbefore
    linarith
  onCanvas node hnode := by
    obtain ⟨hx, hy, hright, hbottom⟩ := h.onCanvas node hnode
    exact ⟨by linarith, by linarith, by linarith, by linarith⟩

/-! ### Wires and nodes -/

theorem wireFault?_eq_none_iff {wire : Wire} :
    diagram.wireFault? wire = none ↔ ∃ source target, diagram.node? wire.source = some source ∧
      diagram.node? wire.target = some target ∧ source.level < target.level := by
  unfold wireFault?
  split
  · next source target hsource htarget => simp [hsource, htarget]
  · next hnone =>
    simp only [reduceCtorEq, false_iff]
    rintro ⟨source, target, hsource, htarget, -⟩
    exact hnone source target hsource htarget

theorem nodeFault?_eq_none_iff {node : Node Rat} :
    nodeFault? tolerance diagram node = none ↔
      -tolerance ≤ node.box.x ∧ -tolerance ≤ node.box.y ∧
        node.box.right ≤ diagram.width + tolerance ∧
        node.box.bottom ≤ diagram.height + tolerance := by
  simp [nodeFault?, onCanvas]

/-! ### Columns -/

section

variable (nodes : List (Node Rat))

theorem order_y_trans (a b c : Node Rat) (hab : (Scalar.order a.box.y b.box.y).isLE = true)
    (hbc : (Scalar.order b.box.y c.box.y).isLE = true) :
    (Scalar.order a.box.y c.box.y).isLE = true := by
  rw [Scalar.isLE_order_rat] at hab hbc ⊢
  exact hab.trans hbc

theorem order_y_total (a b : Node Rat) :
    ((Scalar.order a.box.y b.box.y).isLE || (Scalar.order b.box.y a.box.y).isLE) = true := by
  rw [Bool.or_eq_true, Scalar.isLE_order_rat, Scalar.isLE_order_rat]
  exact le_total ..

theorem pairwise_y_fromTop : (fromTop nodes).Pairwise fun a b => a.box.y ≤ b.box.y :=
  (List.pairwise_mergeSort order_y_trans order_y_total nodes).imp Scalar.isLE_order_rat.1

/-- Nodes at one height keep their order. -/
theorem filter_fromTop (y : Rat) :
    (fromTop nodes).filter (·.box.y = y) = nodes.filter (·.box.y = y) := by
  have hle : (nodes.filter (·.box.y = y)).Pairwise fun a b =>
      (Scalar.order a.box.y b.box.y).isLE = true := by
    refine List.pairwise_of_forall_mem_list fun a ha b hb => ?_
    rw [Scalar.isLE_order_rat, of_decide_eq_true (List.mem_filter.1 ha).2,
      of_decide_eq_true (List.mem_filter.1 hb).2]
  have hsub : (nodes.filter (·.box.y = y)).Sublist ((fromTop nodes).filter (·.box.y = y)) := by
    have h := (List.sublist_mergeSort order_y_trans order_y_total hle List.filter_sublist).filter
      (·.box.y = y)
    simp only [List.filter_filter, Bool.and_self] at h
    exact h
  exact (hsub.eq_of_length ((List.mergeSort_perm ..).filter _).length_eq.symm).symm

variable {nodes}

/-- Sorting brings nodes that stand in the order of their numbers into the order from the top. -/
theorem pairwise_fromTop (h : nodes.Pairwise fun a b => a.id < b.id) :
    (fromTop nodes).Pairwise Node.Before := by
  rw [List.pairwise_iff_forall_sublist]
  intro a b hab
  rcases (List.pairwise_iff_forall_sublist.1 (pairwise_y_fromTop nodes) hab).lt_or_eq with
    hlt | heq
  · exact .inl hlt
  · have hlevel : [a, b].Sublist (nodes.filter (·.box.y = b.box.y)) := by
      rw [← filter_fromTop]
      simpa [heq] using hab.filter (·.box.y = b.box.y)
    exact .inr ⟨heq, List.pairwise_iff_forall_sublist.1 h (hlevel.trans List.filter_sublist)⟩

end

/-- In a list of nodes from the top down it is enough to compare neighbours. -/
theorem closePair?_eq_none_iff {nodes : List (Node Rat)}
    (h : nodes.Pairwise fun a b => a.box.y ≤ b.box.y) :
    closePair? tolerance gap nodes = none ↔
      nodes.Pairwise fun upper lower => upper.box.bottom + gap ≤ lower.box.y + tolerance := by
  fun_induction closePair? tolerance gap nodes with
  | case1 upper lower rest hlt =>
    simp only [reduceCtorEq, false_iff]
    intro hpairwise
    exact not_le.2 hlt ((List.pairwise_cons.1 hpairwise).1 lower List.mem_cons_self)
  | case2 upper lower rest hlt ih =>
    obtain ⟨-, hsorted⟩ := List.pairwise_cons.1 h
    rw [ih hsorted]
    constructor
    · intro hpairwise
      refine List.pairwise_cons.2 ⟨fun node hnode => ?_, hpairwise⟩
      have hle := not_lt.1 hlt
      -- What stands behind the neighbour stands no higher than it.
      rcases List.mem_cons.1 hnode with rfl | hnode
      · exact hle
      · have hy := (List.pairwise_cons.1 hsorted).1 node hnode
        linarith
    · exact fun hpairwise => (List.pairwise_cons.1 hpairwise).2
  | case3 nodes hshort =>
    rcases nodes with - | ⟨upper, - | ⟨lower, rest⟩⟩
    · exact iff_of_true rfl .nil
    · exact iff_of_true rfl (List.pairwise_singleton _ _)
    · exact absurd rfl (hshort upper lower rest)

theorem closePair?_fromTop_eq_none_iff {nodes : List (Node Rat)}
    (h : nodes.Pairwise fun a b => a.id < b.id) :
    closePair? tolerance gap (fromTop nodes) = none ↔
      ∀ upper ∈ nodes, ∀ lower ∈ nodes, upper.Before lower →
        upper.box.bottom + gap ≤ lower.box.y + tolerance := by
  have hbefore := pairwise_fromTop h
  rw [closePair?_eq_none_iff (hbefore.imp Node.Before.y_le)]
  constructor
  · intro hpairwise upper hupper lower hlower
    -- No node comes before one that it stands behind, so nothing is asked the other way round.
    have hforward : (fromTop nodes).Pairwise fun upper lower => upper.Before lower →
        upper.box.bottom + gap ≤ lower.box.y + tolerance := by
      refine hpairwise.imp ?_
      exact fun hle _ => hle
    exact hforward.forall_of_forall_of_flip (fun node _ hself => absurd hself hself.asymm)
      (hbefore.imp fun hab hba => absurd hba hab.asymm) (List.mem_mergeSort.2 hupper)
      (List.mem_mergeSort.2 hlower)
  · intro hall
    exact hbefore.imp_of_mem fun hupper hlower =>
      hall _ (List.mem_mergeSort.1 hupper) _ (List.mem_mergeSort.1 hlower)

/-! ### Levels -/

theorem Numbered.pairwise_id (h : diagram.Numbered) :
    diagram.nodes.toList.Pairwise fun a b => a.id < b.id := by
  rw [List.pairwise_iff_getElem]
  intro i j hi hj hlt
  have hnode : ∀ k (hk : k < diagram.nodes.toList.length), diagram.nodes.toList[k].id = k :=
    fun k hk => h k _ (by rw [← Array.getElem?_toList, List.getElem?_eq_getElem hk])
  rw [hnode i hi, hnode j hj]
  exact hlt

/-- Of two nodes one comes before the other. -/
theorem Numbered.eq_or_before (h : diagram.Numbered) {node other : Node Rat}
    (hnode : node ∈ diagram.nodes) (hother : other ∈ diagram.nodes) :
    node = other ∨ node.Before other ∨ other.Before node := by
  obtain ⟨i, hi⟩ := Array.mem_iff_getElem?.1 hnode
  obtain ⟨j, hj⟩ := Array.mem_iff_getElem?.1 hother
  simp only [Node.Before, h i node hi, h j other hj]
  rcases lt_trichotomy node.box.y other.box.y with hlt | heq | hgt
  · exact .inr (.inl (.inl hlt))
  · rcases Nat.lt_trichotomy i j with hlt | rfl | hgt
    · exact .inr (.inl (.inr ⟨heq, hlt⟩))
    · exact .inl (Option.some.inj (hi.symm.trans hj))
    · exact .inr (.inr (.inr ⟨heq.symm, hgt⟩))
  · exact .inr (.inr (.inl hgt))

/-- The nodes of a level. -/
theorem Numbered.filterMap_node? (h : diagram.Numbered) {level : Nat} {ids : List NodeId}
    (hlevel : (level, ids) ∈ diagram.levels) :
    ids.filterMap diagram.node? = diagram.nodes.toList.filter (·.level = level) := by
  have hids : ids = (diagram.nodes.toList.filter (·.level = level)).map (·.id) := by
    refine (Levels.snd_of_mem_group hlevel).trans ?_
    rw [List.filter_map, List.map_map]
    rfl
  rw [hids, List.filterMap_map]
  refine (List.filterMap_eq_map_iff_forall_eq_some.2 fun node hnode => ?_).trans (List.map_id _)
  obtain ⟨id, hid⟩ := List.mem_iff_getElem?.1 (List.mem_of_mem_filter hnode)
  rw [Array.getElem?_toList] at hid
  rw [Function.comp_apply, h id node hid]
  exact hid

/-- The levels that a check goes through are those that nodes are on. -/
theorem exists_mem_levels_iff {level : Nat} :
    (∃ ids, (level, ids) ∈ diagram.levels) ↔ ∃ node ∈ diagram.nodes, node.level = level := by
  have hgroup : level ∈ diagram.levels.map (·.1) ↔ _ := Levels.mem_levels_group
  simpa [List.mem_map] using hgroup

/-- The order of a column does not change its largest fan-in. -/
theorem highest_fromTop (level : Nat) :
    Levels.highest ((fromTop (diagram.nodes.toList.filter (·.level = level))).map (·.fanIn)) =
      diagram.fanInAt level :=
  Levels.highest_perm ((List.mergeSort_perm _ _).map _)

theorem Numbered.levelFault?_eq_none_iff (h : diagram.Numbered) {level : Nat} {ids : List NodeId}
    (hlevel : (level, ids) ∈ diagram.levels) :
    levelFault? tolerance settings diagram level ids = none ↔
      ∀ upper ∈ diagram.nodes, ∀ lower ∈ diagram.nodes, upper.level = level →
        lower.level = level → upper.Before lower → upper.box.bottom +
          settings.minSeparation (diagram.fanInAt level) ≤ lower.box.y + tolerance := by
  rw [levelFault?, h.filterMap_node? hlevel, highest_fromTop]
  simp only [Option.map_eq_none_iff,
    closePair?_fromTop_eq_none_iff (h.pairwise_id.filter _), List.mem_filter, Array.mem_toList_iff,
    decide_eq_true_eq, and_imp]
  constructor
  · exact fun hall upper hupper lower hlower hl hl' => hall upper hupper hl lower hlower hl'
  · exact fun hall upper hupper hl lower hlower hl' => hall upper hupper lower hlower hl hl'

theorem Numbered.forall_levelFault?_eq_none_iff (h : diagram.Numbered) :
    (∀ column ∈ diagram.levels,
        levelFault? tolerance settings diagram column.1 column.2 = none) ↔
      ∀ upper ∈ diagram.nodes, ∀ lower ∈ diagram.nodes, upper.level = lower.level →
        upper.Before lower → upper.box.bottom +
          settings.minSeparation (diagram.fanInAt upper.level) ≤ lower.box.y + tolerance := by
  constructor
  · intro hall upper hupper lower hlower hlevel
    obtain ⟨ids, hids⟩ := exists_mem_levels_iff.2 ⟨upper, hupper, rfl⟩
    exact (h.levelFault?_eq_none_iff hids).1 (hall (upper.level, ids) hids) upper hupper lower
      hlower rfl hlevel.symm
  · intro hall column hcolumn
    refine (h.levelFault?_eq_none_iff hcolumn).2 fun upper hupper lower hlower hl hl' => ?_
    rw [← hl]
    exact hall upper hupper lower hlower (hl.trans hl'.symm)

/-- A check finds no fault if and only if the diagram keeps the rules. -/
theorem Numbered.fault?_eq_none_iff (h : diagram.Numbered) :
    fault? tolerance settings diagram = none ↔ KeepsRules tolerance settings diagram := by
  have hnodes : ((if diagram.nodes.isEmpty then some .noNodes else none : Option (Fault Rat)) =
      none) ↔ diagram.nodes ≠ #[] := by
    simp
  rw [fault?]
  simp only [Option.orElse_eq_orElse, Option.orElse_eq_or, Option.or_eq_none_iff, hnodes,
    List.findSome?_eq_none_iff, wireFault?_eq_none_iff, h.forall_levelFault?_eq_none_iff,
    nodeFault?_eq_none_iff, Array.mem_toList_iff]
  constructor
  · rintro ⟨hnonempty, hrises, hapart, honCanvas⟩
    exact ⟨hnonempty, hrises, hapart, honCanvas⟩
  · rintro ⟨hnonempty, hrises, hapart, honCanvas⟩
    exact ⟨hnonempty, hrises, hapart, honCanvas⟩

/-- A check passes a diagram if and only if it keeps the rules. -/
theorem Numbered.validateWith_eq_ok_iff (h : diagram.Numbered) (distance : Rat → String) :
    validateWith tolerance distance settings diagram = .ok () ↔
      KeepsRules tolerance settings diagram := by
  rw [← h.fault?_eq_none_iff, validateWith]
  split
  · next hnone => exact iff_of_true rfl hnone
  · next fault hsome => simp [hsome]

end Diagram

end Schematic
