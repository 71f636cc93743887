import Schematic.Switches

/-!
# What a table of switches holds

Changing a switch changes the value under its name, in either case, and no other (`get?_alter`).
Two tables with the same values are equal (`ext_get?`). So two changes of one switch are one
(`alter_alter`), changes of two switches commute (`alter_comm`), and settling a switch that has a
value changes nothing (`settle_of_isSome`). Settling names one after the other switches those off
that have no value, and changes nothing else in the table (`settles_foldl_settle`).
-/

namespace Schematic.Switches

/-! ### Entries -/

namespace Entries

theorem lookup_cons_eq_ite (first other : Char) (value : Bool) (entries : List (Char × Bool)) :
    ((first, value) :: entries).lookup other =
      if other = first then some value else entries.lookup other := by
  rw [List.lookup_cons]
  by_cases h : other = first
  · rw [if_pos h, h, beq_self_eq_true]
  · rw [if_neg h, beq_false_of_ne h]

theorem lookup_eq_none_of_lt {name : Char} {entries : List (Char × Bool)}
    (h : ∀ entry ∈ entries, name < entry.1) : entries.lookup name = none := by
  rw [List.lookup_eq_none_iff]
  intro entry hentry
  exact bne_iff_ne.2 (Char.ne_of_lt (h entry hentry))

/-- A name below the first one of rising entries is not among them. -/
theorem lookup_cons_of_lt {name first : Char} {value : Bool} {entries : List (Char × Bool)}
    (h : ((first, value) :: entries).Pairwise fun a b => a.1 < b.1) (hlt : name < first) :
    ((first, value) :: entries).lookup name = none := by
  apply lookup_eq_none_of_lt
  intro entry hentry
  rcases List.mem_cons.1 hentry with rfl | hentry
  · exact hlt
  · exact Char.lt_trans hlt (List.rel_of_pairwise_cons h hentry)

theorem lookup_alter {name other : Char} {value : Option Bool → Bool}
    {entries : List (Char × Bool)} (h : entries.Pairwise fun a b => a.1 < b.1) :
    (alter name value entries).lookup other =
      if other = name then some (value (entries.lookup name)) else entries.lookup other := by
  induction entries with
  | nil => rw [alter, lookup_cons_eq_ite, List.lookup_nil, List.lookup_nil]
  | cons head entries ih =>
    obtain ⟨first, old⟩ := head
    rw [alter]
    split
    · next hlt => rw [lookup_cons_of_lt h hlt, lookup_cons_eq_ite]
    · split
      · next heq =>
        subst heq
        simp only [lookup_cons_eq_ite]
        by_cases hother : other = name <;> simp [hother]
      · next hne =>
        simp only [lookup_cons_eq_ite, ih h.tail, if_neg hne]
        by_cases hother : other = first
        · have hname : other ≠ name := fun h => hne (h.symm.trans hother)
          simp only [if_pos hother, if_neg hname]
        · simp only [if_neg hother]

/-- Rising entries with the same values are equal. -/
theorem eq_of_lookup_eq {entries others : List (Char × Bool)}
    (h : entries.Pairwise fun a b => a.1 < b.1) (h' : others.Pairwise fun a b => a.1 < b.1)
    (heq : ∀ name, entries.lookup name = others.lookup name) : entries = others := by
  induction entries generalizing others with
  | nil =>
    cases others with
    | nil => rfl
    | cons head others => simpa [lookup_cons_eq_ite head.1 head.1 head.2] using heq head.1
  | cons head entries ih =>
    obtain ⟨first, value⟩ := head
    cases others with
    | nil => simpa [lookup_cons_eq_ite] using heq first
    | cons head' others =>
      obtain ⟨first', value'⟩ := head'
      -- The smaller one of two different first names would be missing from the other list.
      have hname : first = first' := by
        apply Char.le_antisymm <;> refine Char.not_lt.1 fun hlt => ?_
        · have hnone := lookup_cons_of_lt h hlt
          simp [heq] at hnone
        · have hnone := lookup_cons_of_lt h' hlt
          simp [← heq] at hnone
      subst hname
      have hvalue : value = value' := by simpa [lookup_cons_eq_ite] using heq first
      obtain ⟨hfirst, hrest⟩ := List.pairwise_cons.1 h
      obtain ⟨hfirst', hrest'⟩ := List.pairwise_cons.1 h'
      have hentries : entries = others := by
        apply ih hrest hrest'
        intro name
        have hlookup := heq name
        simp only [lookup_cons_eq_ite] at hlookup
        by_cases hname : name = first
        · rw [hname, lookup_eq_none_of_lt hfirst, lookup_eq_none_of_lt hfirst']
        · rwa [if_neg hname, if_neg hname] at hlookup
      rw [hvalue, hentries]

/-- In rising entries a name stands with the value that is looked up for it. -/
theorem mem_iff_lookup_eq_some {name : Char} {value : Bool} {entries : List (Char × Bool)}
    (h : entries.Pairwise fun a b => a.1 < b.1) :
    (name, value) ∈ entries ↔ entries.lookup name = some value := by
  rw [List.lookup_eq_some_iff]
  constructor
  · intro hmem
    obtain ⟨before, after, rfl⟩ := List.append_of_mem hmem
    refine ⟨before, after, rfl, fun entry hentry => ?_⟩
    have hlt : entry.1 < name := (List.pairwise_append.1 h).2.2 entry hentry _ List.mem_cons_self
    exact bne_iff_ne.2 (Char.ne_of_lt hlt).symm
  · rintro ⟨before, after, rfl, -⟩
    exact List.mem_append_right _ List.mem_cons_self

end Entries

/-! ### Changes -/

/-- A change gives one switch the value worked out from its old one. -/
theorem get?_alter (switches : Switches) (name other : Char) (value : Option Bool → Bool) :
    (switches.alter name value).get? other =
      if other.toUpper = name.toUpper then some (value (switches.get? name))
      else switches.get? other :=
  Entries.lookup_alter switches.sorted

theorem get?_settle (switches : Switches) (name other : Char) :
    (switches.settle name).get? other =
      if other.toUpper = name.toUpper then some (switches.getD name) else switches.get? other :=
  get?_alter ..

theorem get?_set (switches : Switches) (name other : Char) (value : Bool) :
    (switches.set name value).get? other =
      if other.toUpper = name.toUpper then some value else switches.get? other :=
  get?_alter ..

theorem get?_toggle (switches : Switches) (name other : Char) :
    (switches.toggle name).get? other =
      if other.toUpper = name.toUpper then some (!switches.getD name) else switches.get? other :=
  get?_alter ..

theorem get?_congr (switches : Switches) {name other : Char} (h : name.toUpper = other.toUpper) :
    switches.get? name = switches.get? other := by
  rw [get?, get?, h]

theorem getD_congr (switches : Switches) {name other : Char} (h : name.toUpper = other.toUpper) :
    switches.getD name = switches.getD other := by
  rw [getD, getD, get?_congr switches h]

/-- A switch that is settled keeps what it counts as. -/
@[simp] theorem getD_settle (switches : Switches) (name other : Char) :
    (switches.settle name).getD other = switches.getD other := by
  rw [getD, get?_settle]
  split
  · next h => exact switches.getD_congr h.symm
  · rfl

/-- No value is lost when a switch is settled. -/
theorem isSome_get?_settle {switches : Switches} {other : Char} (name : Char)
    (h : (switches.get? other).isSome) : ((switches.settle name).get? other).isSome := by
  rw [get?_settle]
  split
  · rfl
  · exact h

/-! ### Equality -/

/-- Two tables with the same values are equal. -/
theorem ext_get? {switches others : Switches} (h : ∀ name, switches.get? name = others.get? name) :
    switches = others := by
  obtain ⟨entries, hsorted, hfolded⟩ := switches
  obtain ⟨entries', hsorted', hfolded'⟩ := others
  have hentries : entries = entries' := by
    apply Entries.eq_of_lookup_eq hsorted hsorted'
    intro name
    by_cases hname : name.toUpper = name
    · simpa [get?, hname] using h name
    · -- No entry has a name in lower case.
      have hnone : ∀ entries : List (Char × Bool), (∀ entry ∈ entries, entry.1.toUpper = entry.1) →
          entries.lookup name = none := by
        intro entries hfolded
        rw [List.lookup_eq_none_iff]
        intro entry hentry
        exact bne_iff_ne.2 fun heq => hname (heq ▸ hfolded entry hentry)
      rw [hnone entries hfolded, hnone entries' hfolded']
  subst hentries
  rfl

/-! ### One change after another -/

variable {switches : Switches} {name other : Char}

/-- A change is what it makes of the value that is there, under a name in either case. -/
theorem alter_congr {first second : Option Bool → Bool} (h : name.toUpper = other.toUpper)
    (hvalue : first (switches.get? name) = second (switches.get? name)) :
    switches.alter name first = switches.alter other second := by
  apply ext_get?
  intro asked
  rw [get?_alter, get?_alter, ← h, ← switches.get?_congr h, hvalue]

/-- A change to the value that is there changes nothing. -/
theorem alter_eq_self {value : Option Bool → Bool}
    (h : switches.get? name = some (value (switches.get? name))) :
    switches.alter name value = switches := by
  apply ext_get?
  intro asked
  rw [get?_alter]
  split
  · next heq => rw [switches.get?_congr heq, ← h]
  · rfl

/-- Two changes of one switch are one. -/
theorem alter_alter (switches : Switches) (first second : Option Bool → Bool)
    (h : name.toUpper = other.toUpper) :
    (switches.alter name first).alter other second =
      switches.alter name fun old => second (some (first old)) := by
  apply ext_get?
  intro asked
  simp only [get?_alter, h]
  split <;> rfl

/-- Changes of two switches commute. -/
theorem alter_comm (switches : Switches) (first second : Option Bool → Bool)
    (h : name.toUpper ≠ other.toUpper) :
    (switches.alter name first).alter other second =
      (switches.alter other second).alter name first := by
  apply ext_get?
  intro asked
  simp only [get?_alter, if_neg h, if_neg h.symm]
  by_cases hname : asked.toUpper = name.toUpper
  · have hother : asked.toUpper ≠ other.toUpper := fun hother => h (hname.symm.trans hother)
    rw [if_pos hname, if_neg hother, if_pos hname]
  · rw [if_neg hname, if_neg hname]

/-- A switch that has a value is settled. -/
theorem settle_of_isSome (h : (switches.get? name).isSome) : switches.settle name = switches := by
  apply alter_eq_self
  obtain ⟨value, hvalue⟩ := Option.isSome_iff_exists.1 h
  rw [hvalue, Option.getD_some]

/-! ### Settling names -/

/-- The entries of a table are the values that are found in it, each under its name in upper
case. -/
theorem mem_entries_iff {switches : Switches} {entry : Char × Bool} :
    entry ∈ switches.entries ↔
      entry.1.toUpper = entry.1 ∧ switches.get? entry.1 = some entry.2 := by
  have hlookup : entry ∈ switches.entries ↔ switches.entries.lookup entry.1 = some entry.2 :=
    Entries.mem_iff_lookup_eq_some switches.sorted
  constructor
  · intro hmem
    have hfolded := switches.folded entry hmem
    rw [get?, hfolded]
    exact ⟨rfl, hlookup.1 hmem⟩
  · rintro ⟨hfolded, hvalue⟩
    rw [get?, hfolded] at hvalue
    exact hlookup.2 hvalue

theorem get?_foldl_settle (names : List Char) (switches : Switches) (other : Char) :
    (names.foldl settle switches).get? other =
      if names.any (·.toUpper = other.toUpper) then some (switches.getD other)
      else switches.get? other := by
  induction names generalizing switches with
  | nil => rfl
  | cons name names ih =>
    rw [List.foldl_cons, ih, getD_settle, get?_settle, List.any_cons]
    by_cases hname : name.toUpper = other.toUpper
    · rw [if_pos hname.symm, decide_eq_true hname, Bool.true_or, if_pos rfl,
        switches.getD_congr hname, ite_self]
    · rw [if_neg (Ne.symm hname), decide_eq_false hname, Bool.false_or]

/-- A table in which names have been settled: those without a value are off now, and everything
else is as it was. -/
structure Settles (before : Switches) (names : List Char) (after : Switches) : Prop where
  /-- What was in the table still is. -/
  kept {entry : Char × Bool} : entry ∈ before.entries → entry ∈ after.entries
  /-- A name without a value is off, and stands in upper case. -/
  settled {name : Char} : name ∈ names → before.get? name = none →
    (name.toUpper, false) ∈ after.entries
  /-- Nothing else has come into the table. -/
  only {entry : Char × Bool} : entry ∈ after.entries → entry ∈ before.entries ∨
    before.get? entry.1 = none ∧ ∃ name ∈ names, entry = (name.toUpper, false)

/-- Names are settled by settling one after the other. -/
theorem settles_foldl_settle (names : List Char) (switches : Switches) :
    switches.Settles names (names.foldl settle switches) := by
  constructor
  · intro entry hentry
    obtain ⟨hfolded, hvalue⟩ := mem_entries_iff.1 hentry
    refine mem_entries_iff.2 ⟨hfolded, ?_⟩
    rw [get?_foldl_settle, getD, hvalue, Option.getD_some, ite_self]
  · intro name hname hnone
    have hany : names.any (·.toUpper = name.toUpper) = true :=
      List.any_eq_true.2 ⟨name, hname, decide_eq_true rfl⟩
    have hfolded := Text.toUpper_toUpper name
    refine mem_entries_iff.2 ⟨hfolded, ?_⟩
    rw [get?_congr _ hfolded, get?_foldl_settle, if_pos hany, getD, hnone, Option.getD_none]
  · intro entry hentry
    obtain ⟨hfolded, hvalue⟩ := mem_entries_iff.1 hentry
    rw [get?_foldl_settle] at hvalue
    cases hbefore : switches.get? entry.1 with
    | some value =>
      rw [getD, hbefore, Option.getD_some, ite_self] at hvalue
      exact .inl (mem_entries_iff.2 ⟨hfolded, hbefore.trans hvalue⟩)
    | none =>
      rw [getD, hbefore, Option.getD_none] at hvalue
      split at hvalue
      · next hany =>
        obtain ⟨name, hname, heq⟩ := List.any_eq_true.1 hany
        refine .inr ⟨rfl, name, hname, ?_⟩
        rw [of_decide_eq_true heq, hfolded, Option.some.inj hvalue]
      · cases hvalue

end Schematic.Switches
