import Schematic.Text.Letter

/-!
# Switches

The values of a diagram's input switches, by variable. A variable may be named in either case. A
switch that has never been given a value is not in the table.

The entries stand in rising order of their names, each name once and none in lower case, so two
tables with the same values are equal.
-/

namespace Schematic

/-! ### Entries -/

namespace Switches.Entries

/-- Gives a name the value worked out from its old one. -/
def alter (name : Char) (value : Option Bool → Bool) : List (Char × Bool) → List (Char × Bool)
  | [] => [(name, value none)]
  | (other, old) :: entries =>
    if name < other then (name, value none) :: (other, old) :: entries
    else if name = other then (name, value (some old)) :: entries
    else (other, old) :: alter name value entries

theorem fst_of_mem_alter {name : Char} {value : Option Bool → Bool}
    {entries : List (Char × Bool)} {entry : Char × Bool} (h : entry ∈ alter name value entries) :
    entry.1 = name ∨ entry ∈ entries := by
  induction entries with
  | nil => simp_all [alter]
  | cons head entries ih => grind [alter]

theorem pairwise_alter {name : Char} {value : Option Bool → Bool} {entries : List (Char × Bool)}
    (h : entries.Pairwise fun a b => a.1 < b.1) :
    (alter name value entries).Pairwise fun a b => a.1 < b.1 := by
  induction entries with
  | nil => simp [alter]
  | cons head entries ih =>
    obtain ⟨other, old⟩ := head
    rw [List.pairwise_cons] at h
    simp only [alter]
    split
    · rename_i hlt
      refine List.pairwise_cons.2 ⟨?_, List.pairwise_cons.2 h⟩
      intro entry hentry
      rcases List.mem_cons.1 hentry with rfl | hmem
      · exact hlt
      · exact Char.lt_trans hlt (h.1 entry hmem)
    · rename_i hlt
      split
      · rename_i heq
        exact List.pairwise_cons.2 ⟨fun entry hentry => heq ▸ h.1 entry hentry, h.2⟩
      · rename_i hne
        refine List.pairwise_cons.2 ⟨?_, ih h.2⟩
        intro entry hentry
        rcases fst_of_mem_alter hentry with heq | hmem
        · rw [heq]
          have hle : other ≤ name := Char.not_lt.1 hlt
          by_cases hlt' : other < name
          · exact hlt'
          · exact absurd (Char.le_antisymm (Char.not_lt.1 hlt') hle) hne
        · exact h.1 entry hmem

end Switches.Entries

/-- The values of switches. -/
structure Switches where
  /-- The names and values. -/
  entries : List (Char × Bool)
  /-- The names rise. -/
  sorted : entries.Pairwise fun a b => a.1 < b.1
  /-- No name is in lower case. -/
  folded : ∀ entry ∈ entries, entry.1.toUpper = entry.1
  deriving DecidableEq

namespace Switches

/-! ### The table -/

/-- A table without values. -/
def empty : Switches := ⟨[], .nil, by simp⟩

instance : EmptyCollection Switches := ⟨empty⟩

instance : Inhabited Switches := ⟨empty⟩

/-- Gives a switch the value worked out from its old one. -/
def alter (switches : Switches) (name : Char) (value : Option Bool → Bool) : Switches where
  entries := Entries.alter name.toUpper value switches.entries
  sorted := Entries.pairwise_alter switches.sorted
  folded := by
    intro entry hentry
    rcases Entries.fst_of_mem_alter hentry with heq | hmem
    · rw [heq, Text.toUpper_toUpper]
    · exact switches.folded entry hmem

/-- The value of a switch, if it has one. -/
def get? (switches : Switches) (name : Char) : Option Bool :=
  switches.entries.lookup name.toUpper

/-- Gives a switch a value. -/
def set (switches : Switches) (name : Char) (value : Bool) : Switches :=
  switches.alter name fun _ => value

/-- Switches a switch off, if it has no value yet. -/
def settle (switches : Switches) (name : Char) : Switches := switches.alter name (·.getD false)

/-- The value of a switch, once it has one. -/
def getD (switches : Switches) (name : Char) : Bool := (switches.get? name).getD false

/-- Turns a switch over; one without a value counts as off. -/
def toggle (switches : Switches) (name : Char) : Switches :=
  switches.alter name fun old => !old.getD false

/-- How many switches have a value. -/
def size (switches : Switches) : Nat := switches.entries.length

/-- No switch has a value. -/
def isEmpty (switches : Switches) : Bool := switches.entries.isEmpty

/-- The table of names and values, of which the last one counts for a name. -/
def ofList (pairs : List (Char × Bool)) : Switches :=
  pairs.foldl (fun switches pair => switches.set pair.1 pair.2) empty

end Switches

end Schematic
