import Mathlib.Data.List.DropRight
import Schematic.Text.Blank

/-!
# What trimming leaves

Trimming takes blanks off both ends of a text and nothing else (`exists_blanks_around`), and it
leaves what stands between blanks if that has no blanks of its own (`trim_append`).
-/

namespace Schematic.Text

/-- The text has no characters but blanks. -/
def Blanks (text : List Char) : Prop := ∀ c ∈ text, isBlank c = true

theorem trim_eq_rdropWhile (text : List Char) :
    trim text = (text.dropWhile isBlank).rdropWhile isBlank := rfl

/-- What trimming takes off are blanks. -/
theorem exists_blanks_around (text : List Char) :
    ∃ before after, Blanks before ∧ Blanks after ∧ text = before ++ trim text ++ after := by
  refine ⟨text.takeWhile isBlank, (text.dropWhile isBlank).rtakeWhile isBlank,
    fun c => List.mem_takeWhile_imp, fun c => List.mem_rtakeWhile_imp, ?_⟩
  rw [trim_eq_rdropWhile, List.append_assoc, List.rdropWhile_append_rtakeWhile,
    List.takeWhile_append_dropWhile]

/-- Blanks around a text without blanks are taken off. -/
theorem trim_append {before middle after : List Char} (hbefore : Blanks before)
    (hmiddle : ∀ c ∈ middle, isBlank c = false) (hafter : Blanks after) :
    trim (before ++ middle ++ after) = middle := by
  have hright : (middle ++ after).rdropWhile isBlank = middle := by
    rw [List.rdropWhile, List.reverse_append,
      List.dropWhile_append_of_pos fun c hc => hafter c (List.mem_reverse.1 hc), ← List.rdropWhile,
      List.rdropWhile_eq_self_iff]
    intro hne
    simp [hmiddle _ (List.getLast_mem hne)]
  rw [trim_eq_rdropWhile, List.append_assoc, List.dropWhile_append_of_pos hbefore]
  cases middle with
  | nil =>
    rw [List.nil_append, List.dropWhile_eq_nil_iff.2 hafter]
    rfl
  | cons c middle =>
    rw [List.cons_append, List.dropWhile_cons_of_neg (by simp [hmiddle c List.mem_cons_self]),
      ← List.cons_append, hright]

end Schematic.Text
