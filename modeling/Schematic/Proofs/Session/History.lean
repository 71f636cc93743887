import Mathlib.Data.List.DropRight
import Schematic.Proofs.Formula.Reading
import Schematic.Proofs.Session.Failure

/-!
# The switches are the history's

What a session has done is a list of events. The table of switches can be read off the events since
the last reset: it holds the variables of every formula shown since then and of the one that was on
show at the reset, and a variable's value is what the successful switches of it make of `false`, one
after the other (`switches_replay`).

Every command but a reset adds to the events and changes the table accordingly
(`Current.advances_perform`); a reset starts both afresh (`Current.get?_reset`).
-/

namespace Schematic.Session

variable {α : Type} [Scalar α]

/-! ### Events -/

/-- What a session has done. -/
structure Event where
  /-- The command it was given. -/
  command : Command
  /-- The formula that was on show then. -/
  shown : Option Formula
  /-- What it answered. -/
  answer : Except Error (Option Signal)

/-- A command as a session performs it. -/
def event (session : Session α) (command : Command) : Event :=
  ⟨command, session.formula?, (session.perform command).1⟩

/-- The events of a run. -/
def history (session : Session α) : List Command → List Event
  | [] => []
  | command :: commands =>
    session.event command :: (session.perform command).2.history commands

theorem after_concat (session : Session α) (commands : List Command) (command : Command) :
    session.after (commands ++ [command]) =
      ((session.after commands).perform command).2 := by
  rw [after, List.foldl_append]
  rfl

theorem history_concat (session : Session α) (commands : List Command) (command : Command) :
    session.history (commands ++ [command]) =
      session.history commands ++ [(session.after commands).event command] := by
  induction commands generalizing session with
  | nil => rfl
  | cons first commands ih => exact congrArg (_ :: ·) (ih _)

/-- The command is a switch of the variable. -/
def Command.Alters (command : Command) (name : Char) : Prop :=
  ∃ switched, switched.toUpper = name.toUpper ∧
    (command = .toggle switched ∨ ∃ value, command = .set switched value)

namespace Event

/-- A text was shown that is not blank, and its formula has the variable. -/
def Introduces (event : Event) (spelling : Spelling) (name : Char) : Prop :=
  ∃ text f, event.command = .setExpression text ∧ Text.isAllBlank text = false ∧
    (∃ answer, event.answer = .ok answer) ∧ Formula.read text spelling = .ok f ∧
    name.toUpper ∈ f.variableNames

/-- What an event makes of the value of a variable: a switch that has succeeded turns the value
over or sets it, and everything else leaves it. -/
def replay (name : Char) (value : Bool) (event : Event) : Bool :=
  match event.answer, event.command with
  | .ok _, .toggle other => if other.toUpper = name.toUpper then !value else value
  | .ok _, .set other new => if other.toUpper = name.toUpper then new else value
  | _, _ => value

/-- The events since the last reset. -/
def sinceReset (events : List Event) : List Event := events.rtakeWhile (·.command ≠ .reset)

/-- The formula that was on show at the last reset, if there has been one. -/
def shownAtReset (events : List Event) : Option Formula :=
  (events.reverse.find? (·.command = .reset)).bind (·.shown)

/-- A variable is in the history: in a formula shown since the last reset, or in the one that was
on show then. -/
def Present (spelling : Spelling) (name : Char) (events : List Event) : Prop :=
  (∃ event ∈ sinceReset events, event.Introduces spelling name) ∨
    ∃ f, shownAtReset events = some f ∧ name.toUpper ∈ f.variableNames

/-- What the switches since the last reset make of `false`. -/
def replayed (name : Char) (events : List Event) : Bool :=
  (sinceReset events).foldl (replay name) false

variable {spelling : Spelling} {name : Char} {events : List Event} {event : Event}

/-- Only a switch of the variable that succeeds makes something else of its value. -/
theorem replay_eq_self (h : ¬ event.command.Alters name ∨ ∃ error, event.answer = .error error)
    (value : Bool) : event.replay name value = value := by
  obtain ⟨command, shown, answer⟩ := event
  have hother : ∀ switched, (∃ signal, answer = .ok signal) →
      (command = .toggle switched ∨ ∃ new, command = .set switched new) →
      switched.toUpper ≠ name.toUpper := by
    rintro switched ⟨signal, rfl⟩ hcommand hname
    rcases h with h | ⟨error, h⟩
    · exact h ⟨switched, hname, hcommand⟩
    · cases h
  cases answer with
  | error error => rfl
  | ok signal =>
    cases command with
    | toggle switched => exact if_neg (hother switched ⟨signal, rfl⟩ (.inl rfl))
    | set switched new => exact if_neg (hother switched ⟨signal, rfl⟩ (.inr ⟨new, rfl⟩))
    | setExpression text => rfl
    | reset => rfl

theorem present_concat (h : event.command ≠ .reset) :
    Present spelling name (events ++ [event]) ↔
      Present spelling name events ∨ event.Introduces spelling name := by
  have hsince : sinceReset (events ++ [event]) = sinceReset events ++ [event] :=
    List.rtakeWhile_concat_pos _ _ _ (decide_eq_true h)
  have hshown : shownAtReset (events ++ [event]) = shownAtReset events := by
    simp [shownAtReset, h]
  rw [Present, Present, hsince, hshown]
  simp only [List.mem_append, List.mem_singleton, or_and_right, exists_or, exists_eq_left]
  exact or_right_comm

theorem replayed_concat (h : event.command ≠ .reset) :
    replayed name (events ++ [event]) = event.replay name (replayed name events) := by
  have hsince : sinceReset (events ++ [event]) = sinceReset events ++ [event] :=
    List.rtakeWhile_concat_pos _ _ _ (decide_eq_true h)
  rw [replayed, hsince, List.foldl_append]
  rfl

theorem present_concat_reset (h : event.command = .reset) :
    Present spelling name (events ++ [event]) ↔
      ∃ f, event.shown = some f ∧ name.toUpper ∈ f.variableNames := by
  simp [Present, sinceReset, shownAtReset, h]

theorem replayed_concat_reset (h : event.command = .reset) :
    replayed name (events ++ [event]) = false := by
  simp [replayed, sinceReset, h]

end Event

variable {session : Session α} {name : Char}

/-! ### What is on show has been read -/

omit [Scalar α] in
theorem formula?_showDiagram (session : Session α) (diagram : Diagram α) :
    (session.showDiagram diagram).2.formula? = some diagram.formula := rfl

omit [Scalar α] in
theorem formula?_change (session : Session α) (name : Char) (alter : Switches → Switches) :
    (session.change name alter).2.formula? = session.formula? := by
  rw [change]
  split
  · rfl
  · next diagram hdiagram =>
    split
    · rw [formula?_showDiagram, formula?, hdiagram, Option.map_some]
    · rfl

/-- A formula on show was there before or has just been read. -/
theorem shown_perform {command : Command} {f : Formula}
    (h : (session.perform command).2.formula? = some f) :
    session.formula? = some f ∨ ∃ text, Formula.read text session.spelling = .ok f := by
  cases command with
  | setExpression text =>
    rw [perform, setExpression] at h
    split at h
    · cases h
    · split at h
      · exact .inl h
      · next g hread =>
        rw [formula?_showDiagram, Formula.formula_layout] at h
        exact .inr ⟨text, Option.some.inj h ▸ hread⟩
  | toggle name => exact .inl ((formula?_change ..).symm.trans h)
  | set name value => exact .inl ((formula?_change ..).symm.trans h)
  | reset =>
    rw [perform, reset, refresh] at h
    split at h
    · exact .inl h
    · next diagram hdiagram =>
      rw [formula?_showDiagram] at h
      refine .inl ?_
      rw [formula?, hdiagram, Option.map_some, h]

/-- A formula on show has been read, in the spelling of the session. -/
theorem exists_read_of_shown (settings : Settings α) (spelling : Spelling)
    (commands : List Command) {f : Formula}
    (h : ((new settings spelling).after commands).formula? = some f) :
    ∃ text, Formula.read text spelling = .ok f := by
  induction commands using List.reverseRecOn with
  | nil => cases h
  | append_singleton commands command ih =>
    rw [after_concat] at h
    rcases shown_perform h with hshown | ⟨text, hread⟩
    · exact ih hshown
    · rw [spelling_after] at hread
      exact ⟨text, hread⟩

theorem wellFormed_of_shown (settings : Settings α) (spelling : Spelling)
    (commands : List Command) {f : Formula}
    (h : ((new settings spelling).after commands).formula? = some f) : f.WellFormed := by
  obtain ⟨text, hread⟩ := exists_read_of_shown settings spelling commands h
  exact Formula.wellFormed_of_read hread

/-! ### One command -/

/-- A command changes what the table holds of a variable as its event says. -/
structure Advances (session : Session α) (command : Command) (name : Char) : Prop where
  /-- The variable is in the table if it was there or is introduced. -/
  isSome : ((session.perform command).2.switches.get? name).isSome ↔
    (session.switches.get? name).isSome ∨
      (session.event command).Introduces session.spelling name
  /-- What the variable counts as is what the event makes of it. -/
  getD : (session.perform command).2.switches.getD name =
    (session.event command).replay name (session.switches.getD name)

/-- What fails leaves the table as it was, and its event counts for nothing. -/
theorem advances_of_error {command : Command} {error : Error}
    (h : (session.perform command).1 = .error error) : Advances session command name := by
  have hsame := eq_of_perform_eq_error h
  constructor
  · rw [hsame]
    simp [Event.Introduces, event, h]
  · rw [hsame]
    simp [Event.replay, event, h]

theorem advances_setExpression (text : String) :
    Advances session (.setExpression text) name := by
  cases hblank : Text.isAllBlank text with
  | true =>
    have hperform : session.perform (.setExpression text) =
        (.ok none, { session with diagram := none }) := by
      rw [perform, setExpression, hblank]
      rfl
    constructor
    · simp [Event.Introduces, event, hperform, hblank]
    · simp [Event.replay, event, hperform]
  | false =>
    cases hread : Formula.read text session.spelling with
    | error error =>
      apply advances_of_error
      rw [perform, setExpression, hread, hblank]
      rfl
    | ok f =>
      have hperform : session.perform (.setExpression text) =
          (.ok (some (session.showDiagram (f.layout session.settings)).1),
            (session.showDiagram (f.layout session.settings)).2) := by
        rw [perform, setExpression, hread, hblank]
        rfl
      have hget : (session.perform (.setExpression text)).2.switches.get? name =
          if f.leaves.any (·.toUpper = name.toUpper) then some (session.switches.getD name)
          else session.switches.get? name := by
        rw [hperform]
        exact Diagram.get?_evaluate_layout f session.settings session.switches name
      have hintroduces : (session.event (.setExpression text)).Introduces session.spelling name ↔
          f.leaves.any (·.toUpper = name.toUpper) = true := by
        rw [(Formula.wellFormed_of_read hread).any_leaves_iff]
        simp [Event.Introduces, event, hperform, hblank, hread]
      constructor
      · rw [hget, hintroduces]
        split <;> simp_all
      · rw [Switches.getD, hget]
        split <;> simp [Event.replay, event, hperform, Switches.getD]

/-- A change that succeeds changes the one switch, which the table has, and no other: the evaluation
after it finds all variables of the diagram in the table. -/
theorem Current.switches_change (h : session.Current) {switched : Char}
    {value : Option Bool → Bool} {answer : Signal}
    (hanswer : (session.change switched (·.alter switched value)).1 = .ok answer) :
    (session.switches.get? switched).isSome ∧
      (session.change switched (·.alter switched value)).2.switches =
        session.switches.alter switched value := by
  cases hdiagram : session.diagram with
  | none => simp [change, hdiagram] at hanswer
  | some diagram =>
    obtain ⟨hknown, -⟩ := h.known hdiagram
    cases hhas : diagram.hasVariable switched with
    | false => simp [change, hdiagram, hhas] at hanswer
    | true =>
      refine ⟨h.isSome_get? hdiagram ((h.hasVariable_iff hdiagram).1 hhas), ?_⟩
      have hevaluate := h.evaluate_eq hdiagram (session.switches.alter switched value)
      have hkept : ∀ name ∈ diagram.formula.leaves,
          ((session.switches.alter switched value).get? name).isSome := by
        intro name hname
        rw [Switches.get?_alter]
        split
        · rfl
        · exact hknown name (Formula.mem_variableNames.2 hname)
      simp only [change, hdiagram, hhas, if_true, showDiagram, hevaluate]
      exact Diagram.switches_evaluate_of_isSome _ _ _ hkept

/-- A command that changes a switch as its event says advances the table. -/
theorem Current.advances_change (h : session.Current) {command : Command} {switched : Char}
    (value : Option Bool → Bool)
    (hperform : session.perform command =
      ((session.change switched (·.alter switched value)).1.map some,
        (session.change switched (·.alter switched value)).2))
    (hcommand : ∀ text, command ≠ .setExpression text)
    (hreplay : ∀ event : Event, event.command = command → (∃ answer, event.answer = .ok answer) →
      ∀ old, event.replay name old =
        if switched.toUpper = name.toUpper then value (some old) else old) :
    Advances session command name := by
  cases hanswer : (session.change switched (·.alter switched value)).1 with
  | error error => exact advances_of_error (by rw [hperform, hanswer]; rfl)
  | ok answer =>
    obtain ⟨hswitched, hswitches⟩ := h.switches_change hanswer
    have hget : (session.perform command).2.switches.get? name =
        if name.toUpper = switched.toUpper then some (value (session.switches.get? switched))
        else session.switches.get? name := by
      rw [hperform, hswitches, Switches.get?_alter]
    have hevent : ∃ answer, (session.event command).answer = .ok answer := by
      rw [event, hperform, hanswer]
      exact ⟨_, rfl⟩
    obtain ⟨old, hold⟩ := Option.isSome_iff_exists.1 hswitched
    constructor
    · have hnone : ¬ (session.event command).Introduces session.spelling name := by
        rintro ⟨text, f, htext, -⟩
        exact hcommand text htext
      rw [or_iff_left hnone, hget]
      split
      · next hname => simp [Switches.get?_congr _ hname, hold]
      · rfl
    · rw [hreplay _ rfl hevent, Switches.getD, hget]
      by_cases hname : name.toUpper = switched.toUpper
      · rw [if_pos hname, if_pos hname.symm, Switches.getD, Switches.get?_congr _ hname, hold]
        rfl
      · rw [if_neg hname, if_neg (Ne.symm hname), Switches.getD]

/-- Every command but a reset changes the table as its event says. -/
theorem Current.advances_perform (h : session.Current) {command : Command}
    (hcommand : command ≠ .reset) : Advances session command name := by
  cases command with
  | setExpression text => exact advances_setExpression text
  | toggle switched =>
    refine h.advances_change (fun old => !old.getD false) rfl nofun ?_
    rintro ⟨_, shown, _⟩ rfl ⟨answer, rfl⟩ old
    rfl
  | set switched new =>
    refine h.advances_change (fun _ => new) rfl nofun ?_
    rintro ⟨_, shown, _⟩ rfl ⟨answer, rfl⟩ old
    rfl
  | reset => exact absurd rfl hcommand

/-- After a reset the variables on show are off, and no other is in the table. -/
theorem Current.get?_reset (h : session.Current)
    (hread : ∀ f, session.formula? = some f → f.WellFormed) :
    ((session.reset.2.switches.get? name).isSome ↔
      ∃ f, session.formula? = some f ∧ name.toUpper ∈ f.variableNames) ∧
    session.reset.2.switches.getD name = false := by
  rw [reset, refresh]
  cases hdiagram : session.diagram with
  | none =>
    rw [formula?, hdiagram]
    refine ⟨iff_of_false Bool.false_ne_true ?_, rfl⟩
    rintro ⟨f, hnone, -⟩
    cases hnone
  | some diagram =>
    have hformula : session.formula? = some diagram.formula := by
      rw [formula?, hdiagram, Option.map_some]
    have hevaluate := h.evaluate_eq hdiagram ∅
    simp only [showDiagram, hevaluate, hformula, Option.some.injEq, exists_eq_left']
    rw [← (hread _ hformula).any_leaves_iff, Diagram.get?_evaluate_layout,
      Diagram.getD_evaluate_layout]
    refine ⟨?_, rfl⟩
    split
    · next hany => exact iff_of_true rfl hany
    · next hany => exact iff_of_false Bool.false_ne_true hany

/-! ### Runs -/

/-- The table is what the history makes of it. -/
theorem present_after (settings : Settings α) (spelling : Spelling) (commands : List Command)
    (name : Char) :
    let session := (new settings spelling).after commands
    let events := (new settings spelling).history commands
    ((session.switches.get? name).isSome ↔ Event.Present spelling name events) ∧
      session.switches.getD name = Event.replayed name events := by
  induction commands using List.reverseRecOn with
  | nil =>
    refine ⟨iff_of_false Bool.false_ne_true ?_, rfl⟩
    rintro (⟨event, hevent, -⟩ | ⟨f, hf, -⟩)
    · cases hevent
    · cases hf
  | append_singleton commands command ih =>
    obtain ⟨hpresent, hreplayed⟩ := ih
    obtain ⟨hcurrent, -⟩ := (current_new settings spelling).after commands
    have hspelling : ((new settings spelling).after commands).spelling = spelling :=
      spelling_after ..
    simp only [after_concat, history_concat]
    by_cases hreset : command = .reset
    · subst hreset
      rw [Event.present_concat_reset rfl, Event.replayed_concat_reset rfl]
      exact hcurrent.get?_reset fun f => wellFormed_of_shown settings spelling commands
    · obtain ⟨hisSome, hgetD⟩ : Advances _ command name := hcurrent.advances_perform hreset
      rw [Event.present_concat hreset, Event.replayed_concat hreset, hisSome, hgetD, hpresent,
        hreplayed, hspelling]
      exact ⟨Iff.rfl, rfl⟩

/-- **The switches are the history's.** After every run from an empty session the table holds a
variable if and only if it is in a formula shown since the last reset or in the one on show at that
reset, and its value is then what the successful switches of it since that reset make of `false`.
Whatever else is done next, or fails, leaves the value as it is. -/
theorem switches_replay (settings : Settings α) (spelling : Spelling) (commands : List Command)
    (name : Char) :
    let session := (new settings spelling).after commands
    let events := (new settings spelling).history commands
    ((session.switches.get? name).isSome ↔ Event.Present spelling name events) ∧
    (∀ value, session.switches.get? name = some value → value = Event.replayed name events) ∧
    ∀ command value, command ≠ .reset →
      (¬ command.Alters name ∨ ∃ error, (session.perform command).1 = .error error) →
      session.switches.get? name = some value →
      (session.perform command).2.switches.get? name = some value := by
  intro session events
  obtain ⟨hpresent, hreplayed⟩ := present_after settings spelling commands name
  obtain ⟨hcurrent, -⟩ := (current_new settings spelling).after commands
  refine ⟨hpresent, fun value hvalue => ?_, fun command value hreset hother hvalue => ?_⟩
  · rw [← hreplayed, Switches.getD, hvalue, Option.getD_some]
  · obtain ⟨hisSome, hgetD⟩ : Advances session command name := hcurrent.advances_perform hreset
    rw [Event.replay_eq_self hother, Switches.getD, Switches.getD, hvalue] at hgetD
    obtain ⟨after, hafter⟩ := Option.isSome_iff_exists.1 (hisSome.2 (.inl (by rw [hvalue]; rfl)))
    rw [hafter] at hgetD ⊢
    exact congrArg some hgetD

end Schematic.Session
