import Schematic.Proofs.Session.Sketch

/-!
# Switches are independent

A switch of a variable on show gives it a new value and evaluates the diagram with the table that
makes, so the session after it is the session with other switches (`Current.perform_eq`). What such
sessions show does not depend on what was shown before (`withSwitches_withSwitches`). Hence one
switch after another leaves the session with the table that both changes make
(`Current.perform_perform`), and switches behave as changes of the table do: turning one over twice
restores the session, the last value given to one counts, and switches of two variables commute
(`switches_independent`).
-/

namespace Schematic.Session

variable {α : Type} [Scalar α] {session : Session α} {f : Formula} {name other : Char}
  {command next : Command} {value first second : Option Bool → Bool}

/-! ### A session with other switches -/

/-- The session with other switches, and its diagram evaluated with them. -/
def withSwitches (session : Session α) (switches : Switches) : Session α :=
  { session with
    diagram := session.diagram.map fun diagram => (diagram.evaluate switches).1
    switches := switches }

omit [Scalar α] in
@[simp] theorem formula?_withSwitches (session : Session α) (switches : Switches) :
    (session.withSwitches switches).formula? = session.formula? := by
  rw [formula?, formula?, withSwitches, Option.map_map]
  rfl

omit [Scalar α] in
theorem silent_withSwitches (session : Session α) (switches : Switches) :
    (session.withSwitches switches).diagram.map Diagram.silent =
      session.diagram.map Diagram.silent := by
  rw [withSwitches, Option.map_map]
  exact congrArg (session.diagram.map ·) (funext fun diagram => Diagram.silent_withSignals ..)

omit [Scalar α] in
/-- Only the last switches count. -/
@[simp] theorem withSwitches_withSwitches (session : Session α) (before after : Switches) :
    (session.withSwitches before).withSwitches after = session.withSwitches after := by
  simp [withSwitches, Function.comp_def, Diagram.evaluate_evaluate]

/-- A current session shows what its own switches make of it. -/
theorem Current.withSwitches_eq_self (h : session.Current) :
    session.withSwitches session.switches = session := by
  have hdiagram : (session.diagram.map fun diagram => (diagram.evaluate session.switches).1) =
      session.diagram := by
    cases hshown : session.diagram with
    | none => rfl
    | some diagram => rw [Option.map_some, h.evaluate_eq hshown, h diagram hshown]
  rw [withSwitches, hdiagram]

/-! ### One switch -/

/-- The command gives a variable the value worked out from its old one. -/
inductive Command.Gives (name : Char) : Command → (Option Bool → Bool) → Prop
  /-- The variable is turned over, under its name in either case. -/
  | toggle {switched : Char} : switched.toUpper = name.toUpper →
    Gives name (.toggle switched) fun old => !old.getD false
  /-- The variable is set, under its name in either case. -/
  | set {switched : Char} (new : Bool) : switched.toUpper = name.toUpper →
    Gives name (.set switched new) fun _ => new

theorem Command.Alters.exists_gives (h : command.Alters name) :
    ∃ value, command.Gives name value := by
  obtain ⟨switched, hname, rfl | ⟨new, rfl⟩⟩ := h
  · exact ⟨_, .toggle hname⟩
  · exact ⟨_, .set new hname⟩

/-- A change of a variable on show answers what the diagram puts out with the table it makes. -/
theorem Current.change_eq (h : session.Current) (hshown : session.formula? = some f)
    (hname : name.toUpper ∈ f.variableNames) :
    let after := session.withSwitches (session.switches.alter name value)
    ((session.change name (·.alter name value)).1.map some,
      (session.change name (·.alter name value)).2) = (.ok after.output?, after) := by
  intro after
  obtain ⟨diagram, hdiagram, rfl⟩ := Option.map_eq_some_iff.1 hshown
  have hhas : diagram.hasVariable name = true := (h.hasVariable_iff hdiagram).2 hname
  have hchange : session.change name (·.alter name value) =
      (.ok (diagram.evaluate (session.switches.alter name value)).1.output,
        { after with
          switches := (diagram.evaluate (session.switches.alter name value)).2 }) := by
    simp [change, hdiagram, hhas, showDiagram, after, withSwitches]
  have hafter : (session.change name (·.alter name value)).2 = after := by
    have hswitches := (h.switches_change (congrArg Prod.fst hchange)).2
    rw [hchange] at hswitches ⊢
    exact congrArg (fun switches => { after with switches := switches }) hswitches
  have hanswer := (h.keeps_change name (·.alter name value)).answer
    (congrArg (·.1.map some) hchange)
  rw [hafter] at hanswer ⊢
  rw [← hanswer, hchange]
  rfl

/-- A switch of a variable on show leaves the session with the table it makes. -/
theorem Current.perform_eq (h : session.Current) (hshown : session.formula? = some f)
    (hname : name.toUpper ∈ f.variableNames) (hgives : command.Gives name value) :
    let after := session.withSwitches (session.switches.alter name value)
    session.perform command = (.ok after.output?, after) := by
  have hchange : ∀ switched : Char, switched.toUpper = name.toUpper →
      let after := session.withSwitches (session.switches.alter name value)
      ((session.change switched (·.alter switched value)).1.map some,
        (session.change switched (·.alter switched value)).2) = (.ok after.output?, after) := by
    intro switched hswitched
    rw [← Switches.alter_congr hswitched rfl]
    exact h.change_eq hshown (hswitched ▸ hname)
  cases hgives with
  | toggle hswitched => exact hchange _ hswitched
  | set new hswitched => exact hchange _ hswitched

/-- A switch of a variable on show after another leaves the session with the table both make. -/
theorem Current.perform_perform (h : session.Current) (hshown : session.formula? = some f)
    (hname : name.toUpper ∈ f.variableNames) (hgives : command.Gives name first)
    (hother : other.toUpper ∈ f.variableNames) (hgives' : next.Gives other second) :
    let after := session.withSwitches
      ((session.switches.alter name first).alter other second)
    (session.perform command).2.perform next = (.ok after.output?, after) := by
  have hcurrent := (h.keeps_perform command).current
  rw [h.perform_eq hshown hname hgives] at hcurrent ⊢
  have hnext := hcurrent.perform_eq ((formula?_withSwitches ..).trans hshown) hother hgives'
  rwa [withSwitches_withSwitches] at hnext

/-! ### The algebra of switches -/

/-- The switches of the formula on show are independent of each other. Its variables may be named in
either case. -/
structure Independent (session : Session α) (f : Formula) : Prop where
  /-- A switch succeeds, and answers what is put out after it. -/
  answers {name : Char} {command : Command} : name.toUpper ∈ f.variableNames →
    command.Alters name → ∃ signal, (session.perform command).1 = .ok (some signal) ∧
      (session.perform command).2.output? = some signal
  /-- A switch changes only signals and the table. -/
  frame {name : Char} {command : Command} : name.toUpper ∈ f.variableNames →
    command.Alters name →
    let after := (session.perform command).2
    after.diagram.map Diagram.silent = session.diagram.map Diagram.silent ∧
      after.formula? = some f ∧ after.settings = session.settings ∧
      after.spelling = session.spelling
  /-- Turning a variable over twice restores the session. -/
  toggle_toggle {name other : Char} : name.toUpper ∈ f.variableNames →
    name.toUpper = other.toUpper →
    (session.perform (.toggle name)).2.perform (.toggle other) = (.ok session.output?, session)
  /-- Turning a variable over sets it to the opposite of its value. -/
  toggle_eq_set {name other : Char} : name.toUpper ∈ f.variableNames →
    name.toUpper = other.toUpper → ∃ old, session.switches.get? name = some old ∧
      session.perform (.toggle name) = session.perform (.set other !old)
  /-- The value that a variable was given last counts. -/
  set_set {name other : Char} : name.toUpper ∈ f.variableNames → name.toUpper = other.toUpper →
    ∀ before after, (session.perform (.set name before)).2.perform (.set other after) =
      session.perform (.set other after)
  /-- Switches of two variables commute, down to the last answer. -/
  comm {name other : Char} {command next : Command} : name.toUpper ∈ f.variableNames →
    other.toUpper ∈ f.variableNames → name.toUpper ≠ other.toUpper →
    command.Alters name → next.Alters other →
    (session.perform command).2.perform next = (session.perform next).2.perform command

theorem Current.exists_get?_eq_some (h : session.Current) (hshown : session.formula? = some f)
    (hname : name.toUpper ∈ f.variableNames) : ∃ old, session.switches.get? name = some old := by
  obtain ⟨diagram, hdiagram, rfl⟩ := Option.map_eq_some_iff.1 hshown
  exact Option.isSome_iff_exists.1 (h.isSome_get? hdiagram hname)

theorem Current.exists_output?_eq_some (h : session.Current) (hshown : session.formula? = some f) :
    ∃ signal, session.output? = some signal := by
  obtain ⟨diagram, hdiagram, -⟩ := Option.map_eq_some_iff.1 hshown
  exact ⟨_, (h.known hdiagram).2.2⟩

/-- In a current session the switches of the formula on show are independent. -/
theorem Current.independent (h : session.Current) (hshown : session.formula? = some f) :
    session.Independent f where
  answers {name command} hname halters := by
    obtain ⟨value, hgives⟩ := halters.exists_gives
    have hcurrent := (h.keeps_perform command).current
    rw [h.perform_eq hshown hname hgives] at hcurrent ⊢
    obtain ⟨signal, hsignal⟩ :=
      hcurrent.exists_output?_eq_some ((formula?_withSwitches ..).trans hshown)
    exact ⟨signal, congrArg Except.ok hsignal, hsignal⟩
  frame hname halters := by
    obtain ⟨value, hgives⟩ := halters.exists_gives
    rw [h.perform_eq hshown hname hgives]
    exact ⟨silent_withSwitches .., (formula?_withSwitches ..).trans hshown, rfl, rfl⟩
  toggle_toggle {name other} hname hother := by
    obtain ⟨old, hold⟩ := h.exists_get?_eq_some hshown hname
    have hrestored : (session.switches.alter name fun old => !old.getD false).alter other
        (fun old => !old.getD false) = session.switches := by
      rw [Switches.alter_alter _ _ _ hother]
      apply Switches.alter_eq_self
      rw [hold, Option.getD_some, Option.getD_some, Bool.not_not]
    rw [h.perform_perform hshown hname (.toggle rfl) (hother ▸ hname) (.toggle rfl), hrestored,
      h.withSwitches_eq_self]
  toggle_eq_set {name other} hname hother := by
    obtain ⟨old, hold⟩ := h.exists_get?_eq_some hshown hname
    refine ⟨old, hold, ?_⟩
    have htable : (session.switches.alter name fun old => !old.getD false) =
        session.switches.alter other fun _ => !old := by
      apply Switches.alter_congr hother
      rw [hold, Option.getD_some]
    rw [h.perform_eq hshown hname (.toggle rfl), htable,
      h.perform_eq hshown (hother ▸ hname) (.set _ rfl)]
  set_set {name other} hname hother before after := by
    have htable : (session.switches.alter name fun _ => before).alter other (fun _ => after) =
        session.switches.alter other fun _ => after := by
      rw [Switches.alter_alter _ _ _ hother]
      exact Switches.alter_congr hother rfl
    rw [h.perform_perform hshown hname (.set before rfl) (hother ▸ hname) (.set after rfl), htable,
      h.perform_eq hshown (hother ▸ hname) (.set after rfl)]
  comm hname hother hne halters halters' := by
    obtain ⟨first, hgives⟩ := halters.exists_gives
    obtain ⟨second, hgives'⟩ := halters'.exists_gives
    rw [h.perform_perform hshown hname hgives hother hgives',
      h.perform_perform hshown hother hgives' hname hgives, Switches.alter_comm _ _ _ hne]

/-- **Switches are independent.** After every run from an empty session the variables of the formula
on show can be switched, which changes only signals and the table. Turning one over twice restores
the session with its table, its signals and its wires, and once sets it to the opposite of its
value. The last value given to one counts, and switches of two variables commute. -/
theorem switches_independent (settings : Settings α) (spelling : Spelling)
    (commands : List Command)
    (hshown : ((new settings spelling).after commands).formula? = some f) :
    ((new settings spelling).after commands).Independent f := by
  obtain ⟨hcurrent, -⟩ := (current_new settings spelling).after commands
  exact hcurrent.independent hshown

/-- Two variables of the formula on show have been switched, and a text in between has failed. -/
theorem switches_independent_wired :
    let session := (new (.default : Settings Rat) .keywords).after
      [.setExpression "A.b + !C", .toggle 'b', .setExpression "A.", .set 'a' true]
    let f : Formula := .or [.and [.var 'A', .var 'B'], .not (.var 'C')]
    session.formula? = some f ∧ f.variableNames = ['A', 'B', 'C'] ∧ session.Independent f := by
  intro session f
  have hsketch : session.sketch = ⟨some f, .ofList [('A', true), ('B', true), ('C', false)]⟩ :=
    ((current_new _ _).sketch_after _).trans (by decide +kernel)
  have hshown : session.formula? = some f := congrArg Sketch.shown hsketch
  exact ⟨hshown, by decide +kernel, switches_independent _ _ _ hshown⟩

end Schematic.Session
