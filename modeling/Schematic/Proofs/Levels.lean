import Mathlib.Data.List.Pairwise
import Schematic.Levels

/-!
# What groups hold

Grouping by level neither loses nor makes a thing (`flatMap_group_perm`). The levels of the groups
rise (`pairwise_group`), a level has a group if it has a thing (`mem_levels_group`), and its group
holds its things in the order in which they were given (`snd_of_mem_group`). So the groups together
hold the things in the order of their levels (`pairwise_flatMap_group`).
-/

namespace Schematic.Levels

variable {β : Type}

theorem flatMap_insert_perm (level : Nat) (thing : β) (groups : List (Nat × List β)) :
    ((insert level thing groups).flatMap (·.2)).Perm (thing :: groups.flatMap (·.2)) := by
  induction groups with
  | nil => exact .refl _
  | cons group groups ih =>
    rw [insert]
    split
    · exact .refl _
    · split
      · exact .refl _
      · rw [List.flatMap_cons, List.flatMap_cons]
        exact (ih.append_left group.2).trans List.perm_middle

/-- The groups hold the things that were given, each as often as it was. -/
theorem flatMap_group_perm (things : List (Nat × β)) :
    ((group things).flatMap (·.2)).Perm (things.map (·.2)) := by
  induction things with
  | nil => exact .refl _
  | cons head things ih => exact (flatMap_insert_perm ..).trans (ih.cons head.2)

/-! ### The levels of the groups -/

theorem mem_levels_insert {level other : Nat} {thing : β} {groups : List (Nat × List β)} :
    other ∈ (insert level thing groups).map (·.1) ↔
      other = level ∨ other ∈ groups.map (·.1) := by
  induction groups with
  | nil => simp [insert]
  | cons group groups ih =>
    rw [insert]
    split
    · rw [List.map_cons, List.mem_cons]
    · split
      · next heq => simp [heq]
      · rw [List.map_cons, List.mem_cons, ih, List.map_cons, List.mem_cons]
        exact or_left_comm

/-- A level has a group if and only if it has a thing. -/
theorem mem_levels_group {level : Nat} {things : List (Nat × β)} :
    level ∈ (group things).map (·.1) ↔ level ∈ things.map (·.1) := by
  induction things with
  | nil => rfl
  | cons thing things ih =>
    rw [List.map_cons, List.mem_cons, ← ih]
    exact mem_levels_insert

theorem pairwise_insert {level : Nat} {thing : β} {groups : List (Nat × List β)}
    (h : groups.Pairwise fun a b => a.1 < b.1) :
    (insert level thing groups).Pairwise fun a b => a.1 < b.1 := by
  induction groups with
  | nil => exact List.pairwise_singleton _ _
  | cons group groups ih =>
    obtain ⟨hgroup, hgroups⟩ := List.pairwise_cons.1 h
    rw [insert]
    split
    · next hlt =>
      refine List.pairwise_cons.2 ⟨fun other hother => ?_, h⟩
      rcases List.mem_cons.1 hother with rfl | hother
      · exact hlt
      · exact Nat.lt_trans hlt (hgroup other hother)
    · split
      · next heq =>
        exact List.pairwise_cons.2 ⟨fun other hother => heq ▸ hgroup other hother, hgroups⟩
      · next hlt hne =>
        refine List.pairwise_cons.2 ⟨fun other hother => ?_, ih hgroups⟩
        rcases mem_levels_insert.1 (List.mem_map_of_mem hother) with heq | hmem
        · rw [heq]
          omega
        · obtain ⟨old, hold, hlevel⟩ := List.mem_map.1 hmem
          exact hlevel ▸ hgroup old hold

/-- The levels of the groups rise. -/
theorem pairwise_group (things : List (Nat × β)) :
    (group things).Pairwise fun a b => a.1 < b.1 := by
  induction things with
  | nil => exact .nil
  | cons thing things ih => exact pairwise_insert ih

/-! ### The things of a group -/

/-- A group is as it was before, or has got one more thing, or is new. -/
theorem of_mem_insert {level : Nat} {thing : β} {groups : List (Nat × List β)}
    {new : Nat × List β} (h : groups.Pairwise fun a b => a.1 < b.1)
    (hnew : new ∈ insert level thing groups) :
    new ∈ groups ∧ new.1 ≠ level ∨
      (∃ old, (level, old) ∈ groups ∧ new = (level, thing :: old)) ∨
      level ∉ groups.map (·.1) ∧ new = (level, [thing]) := by
  induction groups with
  | nil => exact .inr (.inr ⟨List.not_mem_nil, List.mem_singleton.1 hnew⟩)
  | cons group groups ih =>
    obtain ⟨hgroup, hgroups⟩ := List.pairwise_cons.1 h
    rw [insert] at hnew
    split at hnew
    · next hlt =>
      have habsent : ∀ other ∈ group :: groups, level < other.1 := by
        rw [List.forall_mem_cons]
        exact ⟨hlt, fun other hother => Nat.lt_trans hlt (hgroup other hother)⟩
      rcases List.mem_cons.1 hnew with rfl | hnew
      · refine .inr (.inr ⟨fun hmem => ?_, rfl⟩)
        obtain ⟨other, hother, heq⟩ := List.mem_map.1 hmem
        exact Nat.ne_of_gt (habsent other hother) heq
      · exact .inl ⟨hnew, Nat.ne_of_gt (habsent new hnew)⟩
    · split at hnew
      · next heq =>
        rcases List.mem_cons.1 hnew with rfl | hnew
        · exact .inr (.inl ⟨group.2, heq ▸ List.mem_cons_self, by rw [heq]⟩)
        · exact .inl ⟨List.mem_cons_of_mem _ hnew, heq ▸ Nat.ne_of_gt (hgroup new hnew)⟩
      · next hlt hne =>
        rcases List.mem_cons.1 hnew with rfl | hnew
        · exact .inl ⟨List.mem_cons_self, Ne.symm hne⟩
        · rcases ih hgroups hnew with ⟨hmem, hlevel⟩ | ⟨old, hold, rfl⟩ | ⟨habsent, rfl⟩
          · exact .inl ⟨List.mem_cons_of_mem _ hmem, hlevel⟩
          · exact .inr (.inl ⟨old, List.mem_cons_of_mem _ hold, rfl⟩)
          · refine .inr (.inr ⟨fun hmem => ?_, rfl⟩)
            rcases List.mem_cons.1 hmem with heq | hmem
            · exact hne heq
            · exact habsent hmem

/-- A group holds the things of its level in the order in which they were given. -/
theorem snd_of_mem_group {things : List (Nat × β)} {members : Nat × List β}
    (h : members ∈ group things) :
    members.2 = (things.filter (·.1 = members.1)).map (·.2) := by
  induction things generalizing members with
  | nil => cases h
  | cons thing things ih =>
    rcases of_mem_insert (pairwise_group things) h with
      ⟨hmem, hlevel⟩ | ⟨old, hold, rfl⟩ | ⟨habsent, rfl⟩
    · rw [List.filter_cons_of_neg (by simpa using Ne.symm hlevel), ih hmem]
    · rw [List.filter_cons_of_pos (by simp), List.map_cons, ← ih hold]
    · have hnone : things.filter (·.1 = thing.1) = [] := by
        rw [List.filter_eq_nil_iff]
        intro other hother heq
        rw [mem_levels_group] at habsent
        exact habsent (List.mem_map.2 ⟨other, hother, of_decide_eq_true heq⟩)
      rw [List.filter_cons_of_pos (by simp), hnone]
      rfl

/-- One group after the other, things that are grouped by a level stand in its order. -/
theorem pairwise_flatMap_group (level : β → Nat) (things : List β) :
    ((group (things.map fun thing => (level thing, thing))).flatMap (·.2)).Pairwise
      fun a b => level a ≤ level b := by
  have hlevel : ∀ members ∈ group (things.map fun thing => (level thing, thing)),
      ∀ thing ∈ members.2, level thing = members.1 := by
    intro members hmembers thing hthing
    rw [snd_of_mem_group hmembers, List.mem_map] at hthing
    obtain ⟨entry, hentry, rfl⟩ := hthing
    obtain ⟨hentry, heq⟩ := List.mem_filter.1 hentry
    obtain ⟨other, -, rfl⟩ := List.mem_map.1 hentry
    exact of_decide_eq_true heq
  rw [List.pairwise_flatMap]
  constructor
  · intro members hmembers
    refine List.pairwise_of_forall_mem_list fun a ha b hb => Nat.le_of_eq ?_
    rw [hlevel members hmembers a ha, hlevel members hmembers b hb]
  · refine (pairwise_group _).imp_of_mem fun {lower upper} hlower hupper hlt a ha b hb => ?_
    rw [hlevel lower hlower a ha, hlevel upper hupper b hb]
    exact Nat.le_of_lt hlt

/-! ### The highest level -/

theorem le_highest {level : Nat} {levels : List Nat} (h : level ∈ levels) :
    level ≤ highest levels :=
  (List.max?_eq_some_iff.1 List.max?_cons').2 level (List.mem_cons_of_mem 0 h)

/-- The highest level is one of those given, or zero where there is none above it. -/
theorem highest_mem (levels : List Nat) : highest levels ∈ 0 :: levels :=
  (List.max?_eq_some_iff.1 List.max?_cons').1

theorem highest_eq_of_mem {level : Nat} {levels : List Nat} (hmem : level ∈ levels)
    (hle : ∀ other ∈ levels, other ≤ level) : highest levels = level := by
  refine Nat.le_antisymm ?_ (le_highest hmem)
  rcases List.mem_cons.1 (highest_mem levels) with hzero | hmem
  · rw [hzero]
    exact Nat.zero_le level
  · exact hle _ hmem

/-- What is no higher than the highest level is no higher than one of them, if there is one. -/
theorem exists_le_of_le_highest {level : Nat} {levels : List Nat} (hne : levels ≠ [])
    (h : level ≤ highest levels) : ∃ other ∈ levels, level ≤ other := by
  rcases List.mem_cons.1 (highest_mem levels) with hzero | hmem
  · obtain ⟨other, hother⟩ := List.exists_mem_of_ne_nil levels hne
    exact ⟨other, hother, by omega⟩
  · exact ⟨highest levels, hmem, h⟩

theorem highest_perm {levels levels' : List Nat} (h : levels.Perm levels') :
    highest levels = highest levels' :=
  h.foldl_eq' (fun _ _ _ _ _ => Nat.max_right_comm ..) 0

end Schematic.Levels
