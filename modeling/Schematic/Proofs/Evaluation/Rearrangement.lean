import Mathlib.Logic.Relation
import Schematic.Proofs.Evaluation.Settled
import Schematic.Proofs.Formula.Height

/-!
# Rearranged formulas

The operands of a chain may stand in any order, and a chain may stand inside a chain of the same
gate or be spliced into it. Such steps leave the value of a formula as it is, also where variables
are unknown, and at most change the order of its leaves (`Rearranges.alike`). The layouts of two
such formulas have other nodes on other levels, and are visited in another order; they put out the
same and leave the same table behind (`Diagram.evaluate_rearranged`).
-/

namespace Schematic

/-! ### Gates -/

namespace Signal

variable {dominant : Signal}

/-- A gate does not look at the order of its operands. -/
theorem combine_congr {signals others : List Signal} (h : ∀ s, s ∈ signals ↔ s ∈ others) :
    combine dominant signals = combine dominant others := by
  simp only [combine, h]

/-- A gate under a gate of the same kind may be left out. -/
theorem combine_splice (h : dominant ≠ unknown) (before inner after : List Signal) :
    combine dominant (before ++ combine dominant inner :: after) =
      combine dominant (before ++ (inner ++ after)) := by
  have hinvert : dominant.invert ≠ dominant ∧ dominant.invert ≠ unknown := by
    cases dominant <;> simp_all [invert]
  by_cases hdominant : dominant ∈ inner
  · simp [combine, hdominant]
  · by_cases hunknown : unknown ∈ inner
    · simp [combine, hdominant, hunknown, h]
    · simp [combine, hdominant, hunknown, hinvert.1.symm, hinvert.2.symm]

end Signal

namespace Formula

variable {f g : Formula}

/-! ### Steps -/

/-- One step of rearranging a formula, anywhere in it. -/
inductive Rearranges : Formula → Formula → Prop where
  /-- The operands of a conjunction change places. -/
  | permuteAnd {fs gs : List Formula} : fs.Perm gs → Rearranges (.and fs) (.and gs)
  /-- The operands of a disjunction change places. -/
  | permuteOr {fs gs : List Formula} : fs.Perm gs → Rearranges (.or fs) (.or gs)
  /-- A conjunction inside a conjunction gives way to its operands. -/
  | spliceAnd (before inner after : List Formula) :
    Rearranges (.and (before ++ .and inner :: after)) (.and (before ++ (inner ++ after)))
  /-- A disjunction inside a disjunction gives way to its operands. -/
  | spliceOr (before inner after : List Formula) :
    Rearranges (.or (before ++ .or inner :: after)) (.or (before ++ (inner ++ after)))
  /-- The step is under a negation. -/
  | underNot {f g : Formula} : Rearranges f g → Rearranges (.not f) (.not g)
  /-- The step is in an operand of a conjunction. -/
  | underAnd {f g : Formula} (before after : List Formula) : Rearranges f g →
    Rearranges (.and (before ++ f :: after)) (.and (before ++ g :: after))
  /-- The step is in an operand of a disjunction. -/
  | underOr {f g : Formula} (before after : List Formula) : Rearranges f g →
    Rearranges (.or (before ++ f :: after)) (.or (before ++ g :: after))

/-- Two formulas with the same value whatever is read, and with the same leaves up to their
order. -/
structure Alike (f g : Formula) : Prop where
  /-- The values are the same. -/
  value (read : Char → Signal) : f.value read = g.value read
  /-- The leaves are the same. -/
  leaves : f.leaves.Perm g.leaves

namespace Alike

theorem refl (f : Formula) : f.Alike f := ⟨fun _ => rfl, .refl _⟩

theorem symm (h : f.Alike g) : g.Alike f := ⟨fun read => (h.value read).symm, h.leaves.symm⟩

theorem trans {k : Formula} (h : f.Alike g) (h' : g.Alike k) : f.Alike k :=
  ⟨fun read => (h.value read).trans (h'.value read), h.leaves.trans h'.leaves⟩

end Alike

/-! ### Chains -/

theorem leaves_and (fs : List Formula) : (and fs).leaves = fs.flatMap leaves := leaves_eq _

theorem leaves_or (fs : List Formula) : (or fs).leaves = fs.flatMap leaves := leaves_eq _

theorem leaves_not (f : Formula) : (not f).leaves = f.leaves := by
  rw [leaves_eq, operands, List.flatMap_singleton]
  rfl

/-- Two lists of operands that amount to the same under a gate which `dominant` decides. -/
structure AlikeUnder (dominant : Signal) (fs gs : List Formula) : Prop where
  /-- The gate has the same signal over both. -/
  combine (read : Char → Signal) : Signal.combine dominant (fs.map (value read)) =
    Signal.combine dominant (gs.map (value read))
  /-- The leaves are the same. -/
  leaves : (fs.flatMap leaves).Perm (gs.flatMap leaves)

namespace AlikeUnder

variable {dominant : Signal} {fs gs : List Formula}

theorem and (h : AlikeUnder .low fs gs) : (and fs).Alike (.and gs) := by
  refine ⟨fun read => ?_, by simpa only [leaves_and] using h.leaves⟩
  simp only [value, values_eq_map, h.combine]

theorem or (h : AlikeUnder .high fs gs) : (or fs).Alike (.or gs) := by
  refine ⟨fun read => ?_, by simpa only [leaves_or] using h.leaves⟩
  simp only [value, values_eq_map, h.combine]

/-- Operands may change places. -/
theorem of_perm (h : fs.Perm gs) : AlikeUnder dominant fs gs :=
  ⟨fun read => Signal.combine_congr fun _ => (h.map (value read)).mem_iff,
    h.flatMap_right Formula.leaves⟩

/-- An operand may be replaced by one that is alike. -/
theorem of_alike (h : f.Alike g) (before after : List Formula) :
    AlikeUnder dominant (before ++ f :: after) (before ++ g :: after) := by
  refine ⟨fun read => by simp only [List.map_append, List.map_cons, h.value], ?_⟩
  simp only [List.flatMap_append, List.flatMap_cons]
  exact (h.leaves.append_right _).append_left _

/-- A gate of the same kind may give way to its own operands. -/
theorem of_splice (h : dominant ≠ .unknown) {inner : List Formula}
    (hvalue : ∀ read, f.value read = .combine dominant (inner.map (value read)))
    (hleaves : f.leaves = inner.flatMap Formula.leaves) (before after : List Formula) :
    AlikeUnder dominant (before ++ f :: after) (before ++ (inner ++ after)) := by
  refine ⟨fun read => ?_, ?_⟩
  · simp only [List.map_append, List.map_cons, hvalue]
    exact Signal.combine_splice h _ _ _
  · simp only [List.flatMap_append, List.flatMap_cons, hleaves]
    exact .refl _

end AlikeUnder

/-! ### Rearranging -/

/-- A step leaves the value as it is, and the leaves up to their order. -/
theorem Rearranges.alike (h : Rearranges f g) : f.Alike g := by
  induction h with
  | permuteAnd hperm => exact (AlikeUnder.of_perm hperm).and
  | permuteOr hperm => exact (AlikeUnder.of_perm hperm).or
  | spliceAnd before inner after =>
    have hvalue (read : Char → Signal) :
        (Formula.and inner).value read = .combine .low (inner.map (value read)) := by
      rw [value, values_eq_map]
    exact (AlikeUnder.of_splice (by decide) hvalue (leaves_and inner) before after).and
  | spliceOr before inner after =>
    have hvalue (read : Char → Signal) :
        (Formula.or inner).value read = .combine .high (inner.map (value read)) := by
      rw [value, values_eq_map]
    exact (AlikeUnder.of_splice (by decide) hvalue (leaves_or inner) before after).or
  | underNot _ ih =>
    refine ⟨fun read => ?_, by simpa only [leaves_not] using ih.leaves⟩
    rw [value, value, ih.value]
  | underAnd before after _ ih => exact (AlikeUnder.of_alike ih before after).and
  | underOr before after _ ih => exact (AlikeUnder.of_alike ih before after).or

/-- So do any number of steps, forwards and backwards. -/
theorem alike_of_eqvGen (h : Relation.EqvGen Rearranges f g) : f.Alike g := by
  induction h with
  | rel _ _ hstep => exact hstep.alike
  | refl f => exact .refl f
  | symm _ _ _ ih => exact ih.symm
  | trans _ _ _ _ _ ih ih' => exact ih.trans ih'

end Formula

/-! ### Layouts -/

namespace Diagram

open Evaluation

variable {α : Type} [Scalar α]

/-- A layout puts out the value of its formula. -/
theorem output_withSignals_run_layout (f : Formula) (settings : Settings α) (switches : Switches)
    (unset : Unset) :
    ((f.layout settings).withSignals
        (run (f.layout settings).nodes unset switches)).output =
      f.value (unset.reading switches) :=
  (carries_withSignals_layout f settings (signal?_run_layout f settings switches unset)).output

/-- **Operand order and grouping do not matter.** Two formulas that are rearrangements of each other
put out the same once they are laid out, also where switches have no value, and leave the same table
behind. -/
theorem evaluate_rearranged {f g : Formula} (h : Relation.EqvGen Formula.Rearranges f g)
    (settings settings' : Settings α) (switches : Switches) :
    ((f.layout settings).evaluatePartial switches).output =
        ((g.layout settings').evaluatePartial switches).output ∧
      ((f.layout settings).evaluate switches).1.output =
        ((g.layout settings').evaluate switches).1.output ∧
      ((f.layout settings).evaluate switches).2 = ((g.layout settings').evaluate switches).2 := by
  have halike := Formula.alike_of_eqvGen h
  have houtput (unset : Unset) :
      ((f.layout settings).withSignals (run (f.layout settings).nodes unset switches)).output =
        ((g.layout settings').withSignals
          (run (g.layout settings').nodes unset switches)).output := by
    rw [output_withSignals_run_layout, output_withSignals_run_layout, halike.value]
  refine ⟨houtput .unknown, houtput .off, Switches.ext_get? fun name => ?_⟩
  rw [get?_evaluate_layout, get?_evaluate_layout, halike.leaves.any_eq]

/-- In `B + (A + C)` an operand without a value stands before the one that decides the gate, in
`A + C + B` behind it. -/
theorem evaluate_rearranged_disjunction :
    let f : Formula := .or [.var 'B', .or [.var 'A', .var 'C']]
    let g : Formula := .or [.var 'A', .var 'C', .var 'B']
    let settings : Settings Rat := .default
    let switches : Switches := .ofList [('A', true)]
    Relation.EqvGen Formula.Rearranges f g ∧
      ((f.layout settings).evaluatePartial switches).output =
        ((g.layout settings).evaluatePartial switches).output ∧
      ((f.layout settings).evaluate switches).1.output =
        ((g.layout settings).evaluate switches).1.output ∧
      ((f.layout settings).evaluate switches).2 = ((g.layout settings).evaluate switches).2 := by
  intro f g settings switches
  have hsplice : Formula.Rearranges f (.or [.var 'B', .var 'A', .var 'C']) :=
    .spliceOr [.var 'B'] [.var 'A', .var 'C'] []
  have hpermute : Formula.Rearranges (.or [.var 'B', .var 'A', .var 'C']) g :=
    .permuteOr (by decide)
  have hsteps : Relation.EqvGen Formula.Rearranges f g :=
    .trans _ _ _ (.rel _ _ hsplice) (.rel _ _ hpermute)
  exact ⟨hsteps, evaluate_rearranged hsteps settings settings switches⟩

end Diagram

end Schematic
