import Mathlib.Data.List.Dedup
import Mathlib.Data.List.DropRight
import Schematic.Proofs.Switches
import Schematic.Switches.Call

/-!
# A table holds what its calls have written

A call writes to one switch, whichever case it names it in, or to none; `clear` takes back whatever
has been written. So what a table holds under a name can be read off the calls: it is what the calls
since the last `clear` that write to the name make of no value, one after the other
(`Call.replayed`). Every call keeps that (`get?_perform`), hence every run (`get?_after`), and all
other questions to a table are answered from it (`replays_after`).
-/

namespace Schematic.Switches

/-! ### Writing -/

namespace Call

/-- The switch that a call writes to, if it writes. -/
def written? : Call → Option Char
  | settle name | set name _ | toggle name => some name
  | get _ | clear => none

/-- The call writes to the switch, whichever case either of them names it in. -/
def writesTo (call : Call) (name : Char) : Bool :=
  call.written?.any (·.toUpper = name.toUpper)

/-- The value that a call writes in place of the old one. -/
def write (old : Option Bool) : Call → Option Bool
  | settle _ => some (old.getD false)
  | set _ value => some value
  | toggle _ => some (!old.getD false)
  | get _ | clear => old

/-- The calls since the last one that cleared the table. -/
def sinceClear (calls : List Call) : List Call := calls.rtakeWhile (· ≠ clear)

/-- The value of a switch, replayed from the calls that have written to it since the table was
cleared. -/
def replayed (name : Char) (calls : List Call) : Option Bool :=
  ((sinceClear calls).filter (·.writesTo name)).foldl write none

/-- The names written since the table was cleared, in upper case. -/
def namesWritten (calls : List Call) : List Char :=
  (sinceClear calls).filterMap fun call => call.written?.map Char.toUpper

variable {name : Char} {call : Call} {calls : List Call}

theorem sinceClear_concat_clear (calls : List Call) : sinceClear (calls ++ [clear]) = [] :=
  List.rtakeWhile_concat_neg _ _ _ (by simp)

theorem sinceClear_concat (h : call ≠ clear) :
    sinceClear (calls ++ [call]) = sinceClear calls ++ [call] :=
  List.rtakeWhile_concat_pos _ _ _ (decide_eq_true h)

theorem replayed_concat_clear (name : Char) (calls : List Call) :
    replayed name (calls ++ [clear]) = none := by
  rw [replayed, sinceClear_concat_clear]
  rfl

theorem replayed_concat (h : call ≠ clear) :
    replayed name (calls ++ [call]) =
      if call.writesTo name then write (replayed name calls) call else replayed name calls := by
  rw [replayed, sinceClear_concat h, List.filter_append, List.foldl_append, List.filter_singleton]
  cases call.writesTo name <;> rfl

theorem mem_namesWritten_concat (h : call ≠ clear) :
    name.toUpper ∈ namesWritten (calls ++ [call]) ↔
      name.toUpper ∈ namesWritten calls ∨ call.writesTo name = true := by
  have hwrites : call.writesTo name = true ↔
      call.written?.map Char.toUpper = some name.toUpper := by
    rw [writesTo]
    cases call.written? <;> simp
  rw [namesWritten, sinceClear_concat h, List.filterMap_append, List.mem_append, ← namesWritten,
    List.mem_filterMap, hwrites]
  simp only [List.mem_singleton, exists_eq_left]

/-- A switch has a value if its name has been written. -/
theorem isSome_replayed_iff :
    (replayed name calls).isSome = true ↔ name.toUpper ∈ namesWritten calls := by
  induction calls using List.reverseRecOn with
  | nil => exact iff_of_false Bool.false_ne_true List.not_mem_nil
  | append_singleton calls call ih =>
    by_cases hclear : call = clear
    · rw [hclear, replayed_concat_clear, namesWritten, sinceClear_concat_clear]
      exact iff_of_false Bool.false_ne_true List.not_mem_nil
    · rw [mem_namesWritten_concat hclear, replayed_concat hclear, ← ih]
      split
      · next hwrites =>
        have hsome : (write (replayed name calls) call).isSome = true := by
          cases call <;> first | rfl | cases hwrites
        exact iff_of_true hsome (.inr hwrites)
      · next hwrites => rw [or_iff_left hwrites]

theorem toUpper_of_mem_namesWritten (h : name ∈ namesWritten calls) : name.toUpper = name := by
  obtain ⟨call, -, hname⟩ := List.mem_filterMap.1 h
  obtain ⟨written, -, rfl⟩ := Option.map_eq_some_iff.1 hname
  exact Text.toUpper_toUpper written

end Call

/-! ### Calls -/

/-- A call writes to its switch and to no other one, and `clear` takes all values away. -/
theorem get?_perform (switches : Switches) {call : Call} (h : call ≠ .clear) (name : Char) :
    (switches.perform call).2.get? name =
      if call.writesTo name then call.write (switches.get? name) else switches.get? name := by
  have halter : ∀ (written : Char) (value : Option Bool → Bool),
      (switches.alter written value).get? name =
        if decide (written.toUpper = name.toUpper) then some (value (switches.get? name))
        else switches.get? name := by
    intro written value
    rw [get?_alter]
    by_cases hname : name.toUpper = written.toUpper
    · rw [if_pos hname, decide_eq_true hname.symm, if_pos rfl, switches.get?_congr hname]
    · rw [if_neg hname, decide_eq_false (Ne.symm hname), if_neg Bool.false_ne_true]
  cases call with
  | get asked => rfl
  | settle written => exact halter written (·.getD false)
  | set written value => exact halter written fun _ => value
  | toggle written => exact halter written fun old => !old.getD false
  | clear => exact absurd rfl h

theorem after_concat (switches : Switches) (calls : List Call) (call : Call) :
    switches.after (calls ++ [call]) = ((switches.after calls).perform call).2 := by
  rw [after, List.foldl_append]
  rfl

/-- An empty table holds after calls what they have written. -/
theorem get?_after (calls : List Call) (name : Char) :
    (empty.after calls).get? name = Call.replayed name calls := by
  induction calls using List.reverseRecOn with
  | nil => rfl
  | append_singleton calls call ih =>
    rw [after_concat]
    by_cases hclear : call = .clear
    · rw [hclear, Call.replayed_concat_clear]
      rfl
    · rw [get?_perform _ hclear, Call.replayed_concat hclear, ih]

/-- A table is made of a list by setting one switch after the other. -/
theorem ofList_eq_after (pairs : List (Char × Bool)) :
    ofList pairs = empty.after (pairs.map fun pair => .set pair.1 pair.2) := by
  rw [ofList, after, List.foldl_map]
  rfl

/-! ### All questions to a table -/

/-- A table answers all questions as a replay of the calls does. -/
structure Replays (switches : Switches) (calls : List Call) : Prop where
  /-- Under a name, in either case, stands what the calls have written to it. -/
  get? (name : Char) : switches.get? name = Call.replayed name calls
  /-- A call that asks for a switch answers with the value that is stored then. -/
  answer (name : Char) : ∀ call ∈ [Call.get name, .settle name, .toggle name],
    (switches.perform call).1 = Call.replayed name (calls ++ [call])
  /-- The entries are the values under their names in upper case. -/
  mem_entries (entry : Char × Bool) : entry ∈ switches.entries ↔
    entry.1.toUpper = entry.1 ∧ Call.replayed entry.1 calls = some entry.2
  /-- They stand in rising order, so none stands twice. -/
  pairwise_entries : switches.entries.Pairwise fun a b => a.1 < b.1
  /-- None has a small letter for a name. -/
  isLower_entry : ∀ entry ∈ switches.entries, entry.1.isLower = false
  /-- There are as many as distinct names have been written. -/
  size : switches.size = (Call.namesWritten calls).dedup.length
  /-- The table is equal to every other one with the same values, and to no other. -/
  eq_iff (others : Switches) : switches = others ↔ ∀ name, switches.get? name = others.get? name

/-- A character that is its own upper case is no small letter. -/
theorem isLower_of_toUpper_eq {c : Char} (h : c.toUpper = c) : c.isLower = false := by
  rw [Bool.eq_false_iff]
  intro hlower
  have hplace := Text.toNat_val_toUpper hlower
  rw [h] at hplace
  rw [Text.isLower_iff] at hlower
  omega

/-- A table that has been written has an entry for every name written. -/
theorem size_eq_of_get? {switches : Switches} {calls : List Call}
    (h : ∀ name, switches.get? name = Call.replayed name calls) :
    switches.size = (Call.namesWritten calls).dedup.length := by
  have hnodup : (switches.entries.map (·.1)).Nodup :=
    List.pairwise_map.2 (switches.sorted.imp Char.ne_of_lt)
  have hmem : ∀ name, name ∈ switches.entries.map (·.1) ↔
      name ∈ (Call.namesWritten calls).dedup := by
    intro name
    rw [List.mem_dedup, List.mem_map]
    constructor
    · rintro ⟨entry, hentry, rfl⟩
      obtain ⟨hfolded, hvalue⟩ := mem_entries_iff.1 hentry
      rw [← hfolded, ← Call.isSome_replayed_iff, ← h, hvalue]
      rfl
    · intro hname
      have hfolded := Call.toUpper_of_mem_namesWritten hname
      rw [← hfolded, ← Call.isSome_replayed_iff, ← h] at hname
      obtain ⟨value, hvalue⟩ := Option.isSome_iff_exists.1 hname
      exact ⟨(name, value), mem_entries_iff.2 ⟨hfolded, hvalue⟩, rfl⟩
  rw [size, ← List.length_map (·.1)]
  exact ((List.perm_ext_iff_of_nodup hnodup (List.nodup_dedup _)).2 hmem).length_eq

/-- **A table holds what its calls have written.** Whatever pairs it is made of and whatever calls
follow, it answers every question as a replay of these writes does, from the last time it was
cleared on and under names in either case. -/
theorem replays_after (pairs : List (Char × Bool)) (calls : List Call) :
    ((ofList pairs).after calls).Replays
      (pairs.map (fun pair => Call.set pair.1 pair.2) ++ calls) := by
  have hafter : ∀ more : List Call, ((ofList pairs).after calls).after more =
      empty.after (pairs.map (fun pair => Call.set pair.1 pair.2) ++ calls ++ more) := by
    intro more
    rw [ofList_eq_after]
    simp only [after, List.foldl_append]
  have hget : ∀ name, ((ofList pairs).after calls).get? name =
      Call.replayed name (pairs.map (fun pair => Call.set pair.1 pair.2) ++ calls) := by
    intro name
    rw [← get?_after, ← List.append_nil (_ ++ calls), ← hafter]
    rfl
  refine ⟨hget, ?_, ?_, Switches.sorted _, ?_, size_eq_of_get? hget, ?_⟩
  · intro name call hcall
    have hstored : (((ofList pairs).after calls).perform call).1 =
        (((ofList pairs).after calls).perform call).2.get? name := by
      simp only [List.mem_cons, List.not_mem_nil, or_false] at hcall
      rcases hcall with rfl | rfl | rfl
      · rfl
      · exact ((get?_settle ..).trans (if_pos rfl)).symm
      · exact ((get?_toggle ..).trans (if_pos rfl)).symm
    rw [hstored, ← get?_after, ← hafter]
    rfl
  · intro entry
    rw [mem_entries_iff, hget]
  · intro entry hentry
    exact isLower_of_toUpper_eq (Switches.folded _ entry hentry)
  · intro others
    exact ⟨fun heq name => by rw [heq], ext_get?⟩

end Schematic.Switches
