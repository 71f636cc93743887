import Schematic.Proofs.Session.History

/-!
# Sessions without their diagrams

The formula on show and the table of switches move by themselves: what a command makes of the two
needs no diagram (`Current.sketch_perform`), so a whole run can be followed on them
(`Current.sketch_after`). And what a current session puts out is the value of the one in the other
(`Current.output?_eq_value`).
-/

namespace Schematic.Session

open Evaluation

variable {α : Type} [Scalar α] {session : Session α} {f : Formula}

/-- The formula on show and the switches. -/
structure Sketch where
  /-- The formula on show, if there is one. -/
  shown : Option Formula
  /-- The switches. -/
  switches : Switches
  deriving DecidableEq

/-- The sketch of a session. -/
def sketch (session : Session α) : Sketch := ⟨session.formula?, session.switches⟩

namespace Sketch

/-- Shows a formula, which settles its variables. -/
def showFormula (sketch : Sketch) (f : Formula) : Sketch :=
  ⟨some f, f.leaves.foldl Switches.settle sketch.switches⟩

/-- Changes a switch, if its variable is on show. -/
def change (sketch : Sketch) (name : Char) (value : Option Bool → Bool) : Sketch :=
  match sketch.shown with
  | none => sketch
  | some f =>
    if name.toUpper ∈ f.variableNames then
      { sketch with switches := sketch.switches.alter name value }
    else sketch

/-- What a command makes of a sketch. -/
def perform (spelling : Spelling) (sketch : Sketch) : Command → Sketch
  | .setExpression text =>
    if Text.isAllBlank text then { sketch with shown := none }
    else
      match Formula.read text spelling with
      | .error _ => sketch
      | .ok f => sketch.showFormula f
  | .toggle name => sketch.change name fun old => !old.getD false
  | .set name value => sketch.change name fun _ => value
  | .reset =>
    match sketch.shown with
    | none => ⟨none, ∅⟩
    | some f => showFormula ⟨none, ∅⟩ f

end Sketch

/-! ### One command -/

theorem sketch_showDiagram_layout (session : Session α) (f : Formula) :
    (session.showDiagram (f.layout session.settings)).2.sketch = session.sketch.showFormula f := by
  have hswitches := Diagram.switches_evaluate_layout f session.settings session.switches
  simp only [sketch, Sketch.showFormula, ← hswitches]
  exact congrArg (Sketch.mk · _) (congrArg some (f.formula_layout session.settings))

/-- The diagram on show is shown again as its formula is. -/
theorem Current.sketch_showDiagram (h : session.Current) {diagram : Diagram α}
    (hdiagram : session.diagram = some diagram) (switches : Switches) :
    ({ session with switches := switches }.showDiagram diagram).2.sketch =
      { session.sketch with switches := switches }.showFormula diagram.formula := by
  have hshow : { session with switches := switches }.showDiagram diagram =
      { session with switches := switches }.showDiagram
        (diagram.formula.layout session.settings) := by
    simp only [showDiagram, h.evaluate_eq hdiagram]
  rw [hshow]
  exact sketch_showDiagram_layout { session with switches := switches } diagram.formula

theorem Current.sketch_change (h : session.Current) (name : Char) (value : Option Bool → Bool) :
    (session.change name (·.alter name value)).2.sketch = session.sketch.change name value := by
  cases hdiagram : session.diagram with
  | none => simp [Session.change, Sketch.change, sketch, formula?, hdiagram]
  | some diagram =>
    have hhas : diagram.hasVariable name = true ↔ _ := h.hasVariable_iff hdiagram
    have hshown : session.sketch.shown = some diagram.formula :=
      congrArg (Option.map Diagram.formula) hdiagram
    simp only [Sketch.change, hshown, ← hhas]
    cases hvariable : diagram.hasVariable name with
    | false => simp [Session.change, hdiagram, hvariable]
    | true =>
      obtain ⟨answer, hanswer⟩ :
          ∃ answer, (session.change name (·.alter name value)).1 = .ok answer := by
        simp [Session.change, hdiagram, hvariable]
      rw [if_pos rfl, sketch, formula?_change, (h.switches_change hanswer).2]
      exact congrArg (Sketch.mk · _) hshown

/-- What a command makes of a session's sketch. -/
theorem Current.sketch_perform (h : session.Current) (command : Command) :
    (session.perform command).2.sketch = session.sketch.perform session.spelling command := by
  cases command with
  | setExpression text =>
    rw [Session.perform, setExpression, Sketch.perform]
    split
    · rfl
    · cases Formula.read text session.spelling with
      | error error => rfl
      | ok f => exact sketch_showDiagram_layout session f
  | toggle name => exact h.sketch_change name _
  | set name value => exact h.sketch_change name _
  | reset =>
    rw [Session.perform, reset, refresh, Sketch.perform]
    cases hdiagram : session.diagram with
    | none => simp [sketch, formula?, hdiagram]
    | some diagram =>
      have hshown : session.sketch.shown = some diagram.formula :=
      congrArg (Option.map Diagram.formula) hdiagram
      rw [hshown]
      exact h.sketch_showDiagram hdiagram ∅

/-! ### Runs -/

theorem Current.sketch_after (h : session.Current) (commands : List Command) :
    (session.after commands).sketch =
      commands.foldl (Sketch.perform session.spelling) session.sketch := by
  induction commands generalizing session with
  | nil => rfl
  | cons command commands ih =>
    rw [List.foldl_cons, ← h.sketch_perform, ← spelling_perform session command]
    exact ih (h.keeps_perform command).current

/-- A current session puts out the value of the formula on show. -/
theorem Current.output?_eq_value (h : session.Current) (hshown : session.formula? = some f) :
    session.output? = some (f.value (Unset.off.reading session.switches)) := by
  obtain ⟨diagram, hdiagram, rfl⟩ := Option.map_eq_some_iff.1 hshown
  have hscratch := congrArg Prod.fst (h diagram hdiagram)
  have hcarries := Diagram.carries_withSignals_layout diagram.formula session.settings
    (signal?_run_layout diagram.formula session.settings session.switches .off)
  rw [(h.known hdiagram).2.2, ← hcarries.output]
  exact congrArg (some ∘ Diagram.output) hscratch.symm

end Schematic.Session
