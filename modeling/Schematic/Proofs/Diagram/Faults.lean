import Schematic.Proofs.Diagram.Validity

/-!
# What a check reports

A check that does not pass a diagram reports a fault of it, and the fault is there: the nodes and
wires that it names are in the diagram and break the rule in the way it tells
(`Numbered.occurs_of_fault?_eq_some`). So in exact arithmetic a check decides the rules of
placement: it passes a diagram that keeps them and reports a fault of any other one
(`Numbered.validateWith_decides`).
-/

namespace Schematic.Diagram

variable {tolerance gap : Rat} {settings : Settings Rat} {diagram : Diagram Rat}

/-! ### Faults -/

/-- A fault is there, and is told as it is. -/
def Fault.Occurs (tolerance : Rat) (settings : Settings Rat) (diagram : Diagram Rat) :
    Fault Rat → Prop
  | .noNodes => diagram.nodes = #[]
  | .danglingWire source target => ∃ wire ∈ diagram.wires, wire.source = source ∧
      wire.target = target ∧ (diagram.node? source = none ∨ diagram.node? target = none)
  | .flatWire source target sourceLevel targetLevel => ∃ wire ∈ diagram.wires,
      wire.source = source ∧ wire.target = target ∧
      (diagram.node? source).map (·.level) = some sourceLevel ∧
      (diagram.node? target).map (·.level) = some targetLevel ∧ targetLevel ≤ sourceLevel
  | .tooClose upper lower level gap => ∃ above ∈ diagram.nodes, ∃ below ∈ diagram.nodes,
      above.id = upper ∧ below.id = lower ∧ above.level = level ∧ below.level = level ∧
      above.Before below ∧ gap = settings.minSeparation (diagram.fanInAt level) ∧
      below.box.y + tolerance < above.box.bottom + gap
  | .outside id => ∃ node ∈ diagram.nodes, node.id = id ∧
      ¬ (-tolerance ≤ node.box.x ∧ -tolerance ≤ node.box.y ∧
        node.box.right ≤ diagram.width + tolerance ∧ node.box.bottom ≤ diagram.height + tolerance)

theorem occurs_of_wireFault?_eq_some {wire : Wire} {fault : Fault Rat}
    (hwire : wire ∈ diagram.wires) (h : diagram.wireFault? wire = some fault) :
    fault.Occurs tolerance settings diagram := by
  unfold wireFault? at h
  split at h
  · next source target hsource htarget =>
    split at h
    · next hle =>
      obtain rfl := Option.some.inj h
      exact ⟨wire, hwire, rfl, rfl, by rw [hsource]; rfl, by rw [htarget]; rfl, hle⟩
    · cases h
  · next hmissing =>
    obtain rfl := Option.some.inj h
    refine ⟨wire, hwire, rfl, rfl, ?_⟩
    by_contra hboth
    rw [not_or, ← ne_eq, ← ne_eq, Option.ne_none_iff_exists', Option.ne_none_iff_exists'] at hboth
    obtain ⟨⟨source, hsource⟩, target, htarget⟩ := hboth
    exact hmissing source target hsource htarget

/-- A pair that is found to be too close stands in the list, the upper node first. -/
theorem of_closePair?_eq_some {nodes : List (Node Rat)} {upper lower : Node Rat}
    (h : closePair? tolerance gap nodes = some (upper, lower)) :
    [upper, lower].Sublist nodes ∧ lower.box.y + tolerance < upper.box.bottom + gap := by
  fun_induction closePair? tolerance gap nodes with
  | case1 first second rest hlt =>
    cases h
    exact ⟨.cons_cons _ (.cons_cons _ (List.nil_sublist rest)), hlt⟩
  | case2 first second rest _ ih =>
    obtain ⟨hsub, hlt⟩ := ih h
    exact ⟨hsub.cons first, hlt⟩
  | case3 => cases h

theorem Numbered.occurs_of_levelFault?_eq_some (h : diagram.Numbered) {level : Nat}
    {ids : List NodeId} {fault : Fault Rat} (hlevel : (level, ids) ∈ diagram.levels)
    (hfault : levelFault? tolerance settings diagram level ids = some fault) :
    fault.Occurs tolerance settings diagram := by
  rw [levelFault?, h.filterMap_node? hlevel, highest_fromTop] at hfault
  obtain ⟨⟨upper, lower⟩, hpair, rfl⟩ := Option.map_eq_some_iff.1 hfault
  obtain ⟨hsub, hlt⟩ := of_closePair?_eq_some hpair
  have hbefore : [upper, lower].Pairwise Node.Before :=
    (pairwise_fromTop (h.pairwise_id.filter _)).sublist hsub
  have hmem : ∀ node ∈ [upper, lower], node ∈ diagram.nodes ∧ node.level = level := by
    intro node hnode
    have hcolumn := List.mem_filter.1 (List.mem_mergeSort.1 (hsub.subset hnode))
    exact ⟨Array.mem_toList_iff.1 hcolumn.1, of_decide_eq_true hcolumn.2⟩
  rw [List.forall_mem_cons, List.forall_mem_singleton] at hmem
  exact ⟨upper, hmem.1.1, lower, hmem.2.1, rfl, rfl, hmem.1.2, hmem.2.2,
    List.rel_of_pairwise_cons hbefore (List.mem_singleton_self lower), rfl, hlt⟩

/-! ### Checks -/

/-- What a check reports is so. -/
theorem Numbered.occurs_of_fault?_eq_some (h : diagram.Numbered) {fault : Fault Rat}
    (hfault : fault? tolerance settings diagram = some fault) :
    fault.Occurs tolerance settings diagram := by
  simp only [fault?, Option.orElse_eq_orElse, Option.orElse_eq_or, Option.or_eq_some_iff] at hfault
  rcases hfault with hnodes | ⟨-, hwires | ⟨-, hlevels | ⟨-, houtside⟩⟩⟩
  · split at hnodes
    · next hempty =>
      obtain rfl := Option.some.inj hnodes
      exact Array.isEmpty_iff.1 hempty
    · cases hnodes
  · obtain ⟨wire, hwire, hsome⟩ := List.exists_of_findSome?_eq_some hwires
    exact occurs_of_wireFault?_eq_some (Array.mem_toList_iff.1 hwire) hsome
  · obtain ⟨⟨level, ids⟩, hlevel, hsome⟩ := List.exists_of_findSome?_eq_some hlevels
    exact h.occurs_of_levelFault?_eq_some hlevel hsome
  · obtain ⟨node, hnode, hsome⟩ := List.exists_of_findSome?_eq_some houtside
    have hnot : nodeFault? tolerance diagram node ≠ none := by
      rw [hsome]
      exact Option.some_ne_none fault
    rw [Ne, nodeFault?_eq_none_iff] at hnot
    rw [nodeFault?] at hsome
    split at hsome
    · cases hsome
    · obtain rfl := Option.some.inj hsome
      exact ⟨node, Array.mem_toList_iff.1 hnode, rfl, hnot⟩

/-- **A check decides the rules of placement**: it passes a diagram that keeps them, and of any
other one it reports a fault that is there. -/
theorem Numbered.validateWith_decides (h : diagram.Numbered) (distance : Rat → String) :
    (validateWith tolerance distance settings diagram = .ok () ↔
      diagram.KeepsRules tolerance settings) ∧
    (¬ diagram.KeepsRules tolerance settings → ∃ fault : Fault Rat,
      fault.Occurs tolerance settings diagram ∧
        validateWith tolerance distance settings diagram =
          .error (.invalidLayout (fault.message distance))) := by
  refine ⟨h.validateWith_eq_ok_iff distance, fun hbroken => ?_⟩
  rw [← h.fault?_eq_none_iff, ← ne_eq, Option.ne_none_iff_exists'] at hbroken
  obtain ⟨fault, hfault⟩ := hbroken
  refine ⟨fault, h.occurs_of_fault?_eq_some hfault, ?_⟩
  rw [validateWith, hfault]

/-- Three boxes at one height that reach upwards: the bottom of each is above its top. -/
def heaped : Diagram Rat where
  nodes := #['A', 'B', 'C'].mapIdx fun id name =>
    ⟨id, .var name, String.singleton name, 0, 1, ⟨0, 20, 50, -20⟩, none⟩
  wires := #[]
  width := 50
  height := 20
  root := 0
  origin := .ofWires (.var 'A') 1 []

/-- Boxes at one height are not put in another order. -/
theorem fromTop_heaped : fromTop ([0, 1, 2].filterMap heaped.node?) = heaped.nodes.toList :=
  List.mergeSort_of_pairwise (by decide)

/-- Where the nodes of a level may stand 15 below each other they keep the rules, and where they
have to stand 25 below each other they do not. -/
theorem validateWith_decides_heaped :
    let apart : Settings Rat := Settings.default.withRowGap 50
    heaped.Numbered ∧ heaped.KeepsRules Diagram.tolerance Settings.default ∧
      ∃ fault : Fault Rat, fault.Occurs Diagram.tolerance apart heaped ∧
        validateWith Diagram.tolerance (fun _ => "25") apart heaped =
          .error (.invalidLayout (fault.message fun _ => "25")) := by
  intro apart
  have hnumbered : heaped.Numbered := by decide
  have hlevels : heaped.levels = [(0, [0, 1, 2])] := by decide
  have hpasses : validateWith Diagram.tolerance (fun _ => "15") Settings.default heaped =
      .ok () := by
    rw [validateWith, fault?, hlevels]
    simp only [List.findSome?_cons, levelFault?, fromTop_heaped]
    decide +kernel
  have hfails : validateWith Diagram.tolerance (fun _ => "25") (Settings.default.withRowGap 50)
      heaped ≠ .ok () := by
    rw [validateWith, fault?, hlevels]
    simp only [List.findSome?_cons, levelFault?, fromTop_heaped]
    decide +kernel
  have hbreaks : ¬ heaped.KeepsRules Diagram.tolerance apart := fun hkeeps =>
    hfails ((hnumbered.validateWith_decides _).1.2 hkeeps)
  exact ⟨hnumbered, (hnumbered.validateWith_decides _).1.1 hpasses,
    (hnumbered.validateWith_decides fun _ => "25").2 hbreaks⟩

end Schematic.Diagram
