import Schematic.Proofs.Evaluation.Settled
import Schematic.Proofs.Session.Run

/-!
# A session never drifts

A session is current if what it shows is what a computation from scratch gives: the formula laid
out anew and evaluated with the switches is the diagram on show, and the evaluation leaves the
switches as they are. Every operation keeps a session current, whether it succeeds or fails
(`keeps_perform`), so it is current after every run from an empty one (`current_after`).
-/

namespace Schematic.Session

variable {α : Type} [Scalar α] {session : Session α} {diagram : Diagram α}

/-- What is on show is what a computation from scratch gives, down to the table of switches. -/
def Current (session : Session α) : Prop :=
  ∀ diagram, session.diagram = some diagram →
    (diagram.formula.layout session.settings).evaluate session.switches =
      (diagram, session.switches)

/-! ### Operations -/

/-- What an operation should answer and leave behind. -/
structure Keeps (session : Session α) (result : Except Error (Option Signal) × Session α) :
    Prop where
  /-- The session is current. -/
  current : result.2.Current
  /-- Diagrams are laid out as before. -/
  settings : result.2.settings = session.settings
  /-- An operation that succeeds answers what the diagram puts out. -/
  answer {answer : Option Signal} : result.1 = .ok answer → answer = result.2.output?

/-- An operation that fails changes nothing. -/
theorem Current.keeps_error (h : session.Current) (error : Error) :
    Keeps session (.error error, session) :=
  ⟨h, rfl, fun hanswer => nomatch hanswer⟩

/-- A diagram on show evaluates as its formula does when it is laid out anew. -/
theorem Current.evaluate_eq (h : session.Current) (hdiagram : session.diagram = some diagram)
    (switches : Switches) :
    diagram.evaluate switches =
      (diagram.formula.layout session.settings).evaluate switches := by
  have hscratch := congrArg Prod.fst (h diagram hdiagram)
  calc
    diagram.evaluate switches
      = ((diagram.formula.layout session.settings).evaluate session.switches).1.evaluate
          switches := by rw [hscratch]
    _ = (diagram.formula.layout session.settings).evaluate switches :=
      Diagram.evaluate_evaluate ..

/-- Showing a diagram that evaluates as the layout of a formula does makes the session current. -/
theorem keeps_showDiagram {shown : Session α} {f : Formula}
    (hsettings : shown.settings = session.settings)
    (h : diagram.evaluate shown.switches =
      (f.layout shown.settings).evaluate shown.switches) :
    Keeps session (.ok (some (shown.showDiagram diagram).1), (shown.showDiagram diagram).2) := by
  rw [showDiagram, h]
  refine ⟨fun diagram hdiagram => ?_, hsettings, fun hanswer => ?_⟩
  · obtain rfl := Option.some.inj hdiagram
    have hformula : ((f.layout shown.settings).evaluate shown.switches).1.formula = f :=
      f.formula_layout shown.settings
    show (Formula.layout _ shown.settings).evaluate _ = _
    rw [hformula]
    exact Diagram.evaluate_settled f shown.settings shown.switches
  · rw [← Except.ok.inj hanswer]
    exact (Diagram.output?_evaluate_layout f shown.settings shown.switches).symm

theorem Current.keeps_setExpression (h : session.Current) (text : String) :
    Keeps session (session.setExpression text) := by
  rw [setExpression]
  split
  · refine ⟨fun diagram hdiagram => ?_, rfl, fun hanswer => ?_⟩
    · cases hdiagram
    · rw [← Except.ok.inj hanswer]
      rfl
  · split
    · exact h.keeps_error _
    · exact keeps_showDiagram rfl rfl

/-- Changing switches evaluates the diagram on show in place. -/
theorem Current.keeps_change (h : session.Current) (name : Char) (alter : Switches → Switches) :
    Keeps session
      ((session.change name alter).1.map some, (session.change name alter).2) := by
  rw [change]
  split
  · exact h.keeps_error _
  · next diagram hdiagram =>
    split
    · exact keeps_showDiagram rfl (h.evaluate_eq hdiagram _)
    · exact h.keeps_error _

theorem Current.keeps_reset (h : session.Current) :
    Keeps session (.ok session.reset.1, session.reset.2) := by
  rw [reset, refresh]
  split
  · next hdiagram =>
    refine ⟨fun diagram hdiagram' => ?_, rfl, fun hanswer => ?_⟩
    · cases hdiagram.symm.trans hdiagram'
    · rw [← Except.ok.inj hanswer, output?, hdiagram]
      rfl
  · next diagram hdiagram => exact keeps_showDiagram rfl (h.evaluate_eq hdiagram _)

/-- Every command keeps a session current. -/
theorem Current.keeps_perform (h : session.Current) (command : Command) :
    Keeps session (session.perform command) := by
  cases command with
  | setExpression text => exact h.keeps_setExpression text
  | toggle name => exact h.keeps_change name (·.toggle name)
  | set name value => exact h.keeps_change name (·.set name value)
  | reset => exact h.keeps_reset

/-! ### Runs -/

theorem current_new (settings : Settings α) (spelling : Spelling) :
    (new settings spelling).Current := by
  intro diagram hdiagram
  cases hdiagram

theorem Current.after (h : session.Current) (commands : List Command) :
    (session.after commands).Current ∧
      (session.after commands).settings = session.settings := by
  induction commands generalizing session with
  | nil => exact ⟨h, rfl⟩
  | cons command commands ih =>
    obtain ⟨hcurrent, hsettings, -⟩ := h.keeps_perform command
    obtain ⟨hafter, hsettings'⟩ := ih hcurrent
    exact ⟨hafter, hsettings'.trans hsettings⟩

/-- What a current session shows is settled and known through and through. -/
theorem Current.known (h : session.Current) (hdiagram : session.diagram = some diagram) :
    (∀ name ∈ diagram.formula.variableNames, (session.switches.get? name).isSome) ∧
      (∀ node ∈ diagram.nodes, node.signal = some .low ∨ node.signal = some .high) ∧
      session.output? = some diagram.output := by
  have hscratch := h diagram hdiagram
  have hshown := congrArg Prod.fst hscratch
  have htable := congrArg Prod.snd hscratch
  refine ⟨fun name hname => ?_, fun node hnode => ?_, ?_⟩
  · have hleaf := Formula.mem_variableNames.1 hname
    have hget := Diagram.get?_evaluate_layout diagram.formula session.settings session.switches name
    rw [htable, if_pos (List.any_eq_true.2 ⟨name, hleaf, decide_eq_true rfl⟩)] at hget
    exact Option.isSome_of_eq_some hget
  · apply Diagram.signal_evaluate_layout diagram.formula session.settings session.switches
    rwa [hshown]
  · have houtput := Diagram.output?_evaluate_layout diagram.formula session.settings
      session.switches
    rw [hshown] at houtput
    rw [output?, hdiagram, Option.bind_some, houtput]

/-- A variable on show has a value, under its name in either case. -/
theorem Current.isSome_get? (h : session.Current) (hdiagram : session.diagram = some diagram)
    {name : Char} (hname : name.toUpper ∈ diagram.formula.variableNames) :
    (session.switches.get? name).isSome := by
  rw [← session.switches.get?_congr (Text.toUpper_toUpper name)]
  exact (h.known hdiagram).1 _ hname

/-- **A session never drifts.** After every run from an empty session it shows nothing, or its
diagram is that of a computation from scratch: the formula on show laid out anew and evaluated with
the switches, which the evaluation leaves as they are. The table then holds every variable of the
formula and every node is known. And whatever succeeds next answers what is put out after it. -/
theorem never_drifts (settings : Settings α) (spelling : Spelling) (commands : List Command) :
    let session := (new settings spelling).after commands
    (session.diagram = none ∧ session.output? = none ∨
      ∃ diagram f, session.diagram = some diagram ∧ session.formula? = some f ∧
        (f.layout settings).evaluate session.switches = (diagram, session.switches) ∧
        (∀ name ∈ f.variableNames, (session.switches.get? name).isSome) ∧
        (∀ node ∈ diagram.nodes, node.signal = some .low ∨ node.signal = some .high) ∧
        session.output? = some diagram.output) ∧
    ∀ command answer, (session.perform command).1 = .ok answer →
      answer = (session.perform command).2.output? := by
  intro session
  obtain ⟨hcurrent, hsettings⟩ := (current_new settings spelling).after commands
  refine ⟨?_, fun command answer => (hcurrent.keeps_perform command).answer⟩
  cases hdiagram : session.diagram with
  | none =>
    refine .inl ⟨rfl, ?_⟩
    rw [output?, hdiagram, Option.bind_none]
  | some diagram =>
    refine .inr ⟨diagram, diagram.formula, rfl, ?_, ?_, hcurrent.known hdiagram⟩
    · rw [formula?, hdiagram, Option.map_some]
    · rw [← hcurrent diagram hdiagram, hsettings]
      rfl

end Schematic.Session
