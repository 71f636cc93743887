import Schematic.Proofs.Session.Sketch

/-!
# Showing the formula on show once more

What a session shows is what a computation from scratch gives, and its table has every variable of
the formula on show. So a text of that formula leaves the whole session as it is
(`Current.setExpression_eq_self`). The canonical text is such a text after every run: the formula on
show has been read at some time, in the spelling of the session, and what has been read keeps to the
limit of nesting (`reload_changes_nothing`).
-/

namespace Schematic.Session

variable {α : Type} [Scalar α] {session : Session α} {diagram : Diagram α}

/-- The formula on show, laid out and shown anew, is the diagram on show. -/
theorem Current.showDiagram_layout (h : session.Current)
    (hdiagram : session.diagram = some diagram) :
    session.showDiagram (diagram.formula.layout session.settings) = (diagram.output, session) := by
  rw [showDiagram, h diagram hdiagram]
  simp only [← hdiagram]

/-- A text of the formula on show changes nothing, and answers what is put out. -/
theorem Current.setExpression_eq_self (h : session.Current)
    (hdiagram : session.diagram = some diagram) {text : String}
    (hread : Formula.read text session.spelling = .ok diagram.formula) :
    session.setExpression text = (.ok session.output?, session) := by
  have hblank : Text.isAllBlank text = false := Formula.isAllBlank_eq_false_of_read hread
  have houtput : session.output? = some diagram.output := (h.known hdiagram).2.2
  simp only [setExpression, hblank, hread, h.showDiagram_layout hdiagram, houtput,
    Bool.false_eq_true, if_false]

/-- **Reloading changes nothing.** After every run from an empty session that leaves a formula on
show, to show its canonical text answers what the diagram puts out already, and leaves the session
as it is: the formula, the diagram with its signals and wires, and the table of switches. -/
theorem reload_changes_nothing (settings : Settings α) (spelling : Spelling)
    (commands : List Command) {f : Formula}
    (hshown : ((new settings spelling).after commands).formula? = some f) :
    let session := (new settings spelling).after commands
    ∃ signal, session.output? = some signal ∧
      session.setExpression f.text = (.ok (some signal), session) := by
  intro session
  obtain ⟨hcurrent, -⟩ := (current_new settings spelling).after commands
  obtain ⟨diagram, hdiagram, rfl⟩ := Option.map_eq_some_iff.1 hshown
  obtain ⟨text, hread⟩ := exists_read_of_shown settings spelling commands hshown
  have hback : Formula.read diagram.formula.text session.spelling = .ok diagram.formula :=
    (Formula.wellFormed_of_read hread).read_text (Formula.nesting_le_of_read hread) _
  have houtput : session.output? = some diagram.output := (hcurrent.known hdiagram).2.2
  refine ⟨diagram.output, houtput, ?_⟩
  rw [hcurrent.setExpression_eq_self hdiagram hback, houtput]

/-- The text shown had words and needless parentheses; after it a variable has been switched, a text
has failed, and the table holds a variable that is on show no more. -/
theorem reload_changes_nothing_switched :
    let session := (new (.default : Settings Rat) .keywords).after
      [.setExpression "d", .setExpression "(not ((a)) or (b.b))", .set 'B' true, .toggle 'a',
        .setExpression "a..b"]
    let f : Formula := .or [.not (.var 'A'), .and [.var 'B', .var 'B']]
    session.formula? = some f ∧ f.text = "!A + B.B" ∧
      session.switches.entries = [('A', true), ('B', true), ('D', false)] ∧
      session.setExpression "!A + B.B" = (.ok (some .high), session) := by
  intro session f
  have hcurrent : session.Current := ((current_new _ _).after _).1
  have hsketch : session.sketch = ⟨some f, .ofList [('A', true), ('B', true), ('D', false)]⟩ :=
    ((current_new _ _).sketch_after _).trans (by decide +kernel)
  have hshown : session.formula? = some f := congrArg Sketch.shown hsketch
  have hswitches : session.switches = .ofList [('A', true), ('B', true), ('D', false)] :=
    congrArg Sketch.switches hsketch
  have hhigh : session.output? = some .high := by
    rw [hcurrent.output?_eq_value hshown, hswitches]
    decide +kernel
  obtain ⟨signal, hsignal, hreload⟩ := reload_changes_nothing _ _ _ hshown
  obtain rfl := Option.some.inj (hsignal.symm.trans hhigh)
  exact ⟨hshown, by decide, by rw [hswitches]; decide, hreload⟩

end Schematic.Session
