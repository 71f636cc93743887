import Schematic.Proofs.Session.Current

/-!
# When a session's operations fail

A text fails exactly if it is not blank and is no formula, with the error of reading it. A switch
fails exactly if its variable does not occur in the formula on show: the diagram has a leaf of each
variable of its formula and no other (`Current.hasVariable_iff`). And whatever fails leaves the
session as it was (`eq_of_perform_eq_error`).
-/

namespace Schematic

variable {α : Type}

/-! ### The variables of a diagram -/

namespace Diagram

theorem hasVariable_iff {diagram : Diagram α} {name : Char} :
    diagram.hasVariable name = true ↔
      ∃ (id : NodeId) (node : Node α), diagram.nodes[id]? = some node ∧
        node.operation = .var name.toUpper := by
  rw [hasVariable, Bool.not_eq_true', List.isEmpty_eq_false_iff_exists_mem]
  simp only [variableNodes, List.mem_map, List.mem_filter, decide_eq_true_eq, Array.mem_toList_iff,
    Array.mem_iff_getElem?]
  constructor
  · rintro ⟨_, node, ⟨⟨id, hnode⟩, hvar⟩, -⟩
    exact ⟨id, node, hnode, hvar⟩
  · rintro ⟨id, node, hnode, hvar⟩
    exact ⟨node.id, node, ⟨⟨id, hnode⟩, hvar⟩, rfl⟩

/-- Signals do not change what the nodes compute. -/
theorem hasVariable_withSignals (diagram : Diagram α) (progress : Evaluation.Progress)
    (name : Char) : (diagram.withSignals progress).hasVariable name = diagram.hasVariable name := by
  rw [Bool.eq_iff_iff, hasVariable_iff, hasVariable_iff]
  simp only [getElem?_nodes_withSignals, Option.map_eq_some_iff]
  constructor
  · rintro ⟨id, _, ⟨node, hnode, rfl⟩, hvar⟩
    exact ⟨id, node, hnode, hvar⟩
  · rintro ⟨id, node, hnode, hvar⟩
    exact ⟨id, _, ⟨node, hnode, rfl⟩, hvar⟩

end Diagram

variable [Scalar α]

/-- The variables of a layout are those of its formula. -/
theorem Formula.hasVariable_layout_iff (f : Formula) (settings : Settings α) {name : Char} :
    (f.layout settings).hasVariable name = true ↔ name.toUpper ∈ f.variableNames := by
  rw [Diagram.hasVariable_iff, f.exists_node_var_layout_iff settings, mem_variableNames]

namespace Session

variable {session : Session α}

/-- The variables of the diagram on show are those of the formula on show. -/
theorem Current.hasVariable_iff (h : session.Current) {diagram : Diagram α}
    (hdiagram : session.diagram = some diagram) {name : Char} :
    diagram.hasVariable name = true ↔ name.toUpper ∈ diagram.formula.variableNames := by
  have hscratch : ((diagram.formula.layout session.settings).evaluate session.switches).1 =
      diagram := congrArg Prod.fst (h diagram hdiagram)
  rw [← Formula.hasVariable_layout_iff _ session.settings]
  nth_rewrite 1 [← hscratch]
  rw [Diagram.evaluate, Diagram.hasVariable_withSignals]

/-! ### Failures -/

/-- No formula is on show, or one without the variable. -/
def Lacks (session : Session α) (name : Char) : Prop :=
  session.diagram = none ∨ ∃ f, session.formula? = some f ∧ name.toUpper ∉ f.variableNames

theorem setExpression_eq_error_iff {text : String} {error : Error} :
    (session.setExpression text).1 = .error error ↔
      (∃ c ∈ text.toList, Text.isBlank c = false) ∧
        Formula.read text session.spelling = .error error := by
  have hblank : Text.isAllBlank text = false ↔ ∃ c ∈ text.toList, Text.isBlank c = false := by
    rw [Text.isAllBlank, List.all_eq_false]
    simp only [Bool.not_eq_true]
  rw [← hblank, setExpression]
  cases Text.isAllBlank text with
  | true => simp
  | false => cases Formula.read text session.spelling <;> simp

/-- A change of switches fails exactly if the formula on show lacks the variable. -/
theorem Current.change_eq_error_iff (h : session.Current) {name : Char}
    {alter : Switches → Switches} {error : Error} :
    (session.change name alter).1 = .error error ↔
      error = .unknownVariable name.toUpper ∧ session.Lacks name := by
  rw [change, Lacks, formula?]
  cases hdiagram : session.diagram with
  | none => simp [eq_comm]
  | some diagram =>
    have hvariable : diagram.hasVariable name = true ↔ _ := h.hasVariable_iff hdiagram
    by_cases hhas : diagram.hasVariable name = true
    · simp [hhas, hvariable.1 hhas]
    · simp [hhas, mt hvariable.2 hhas, eq_comm]

omit [Scalar α] in
theorem eq_of_change_eq_error {name : Char} {alter : Switches → Switches} {error : Error}
    (h : (session.change name alter).1 = .error error) :
    (session.change name alter).2 = session := by
  rw [change] at h ⊢
  cases hdiagram : session.diagram with
  | none => rfl
  | some diagram =>
    cases hhas : diagram.hasVariable name with
    | false => simp [hhas]
    | true => simp [hdiagram, hhas] at h

theorem eq_of_setExpression_eq_error {text : String} {error : Error}
    (h : (session.setExpression text).1 = .error error) :
    (session.setExpression text).2 = session := by
  rw [setExpression] at h ⊢
  cases hblank : Text.isAllBlank text with
  | true => simp [hblank] at h
  | false => cases hread : Formula.read text session.spelling <;> simp_all

/-- What fails leaves the session as it was. -/
theorem eq_of_perform_eq_error {command : Command} {error : Error}
    (h : (session.perform command).1 = .error error) : (session.perform command).2 = session := by
  have hmap : ∀ {result : Except Error Signal}, result.map some = .error error →
      result = .error error := by
    rintro (failure | signal) hresult
    · exact congrArg Except.error (Except.error.inj hresult)
    · cases hresult
  cases command with
  | setExpression text => exact eq_of_setExpression_eq_error h
  | toggle name => exact eq_of_change_eq_error (hmap h)
  | set name value => exact eq_of_change_eq_error (hmap h)
  | reset => cases h

/-! ### Runs -/

omit [Scalar α] in
theorem spelling_change (session : Session α) (name : Char) (alter : Switches → Switches) :
    (session.change name alter).2.spelling = session.spelling := by
  rw [change]
  split
  · rfl
  · split <;> rfl

theorem spelling_perform (session : Session α) (command : Command) :
    (session.perform command).2.spelling = session.spelling := by
  cases command with
  | setExpression text =>
    rw [perform, setExpression]
    split
    · rfl
    · split <;> rfl
  | toggle name => exact spelling_change ..
  | set name value => exact spelling_change ..
  | reset =>
    rw [perform, reset, refresh]
    split <;> rfl

@[simp] theorem spelling_after (session : Session α) (commands : List Command) :
    (session.after commands).spelling = session.spelling := by
  induction commands generalizing session with
  | nil => rfl
  | cons command commands ih => exact (ih _).trans (spelling_perform ..)

/-- **An operation fails exactly when it should, and then changes nothing.** After every run from an
empty session, a text fails exactly if it is not blank and is no formula, with the error of reading
it, a switch exactly if the formula on show lacks its variable, and a reset never. A session in
which something has failed is the session before, with its diagram, its signals and its switches. -/
theorem fails_exactly (settings : Settings α) (spelling : Spelling) (commands : List Command) :
    let session := (new settings spelling).after commands
    (∀ text error, (session.setExpression text).1 = .error error ↔
      (∃ c ∈ text.toList, Text.isBlank c = false) ∧ Formula.read text spelling = .error error) ∧
    (∀ name error, (session.toggle name).1 = .error error ↔
      error = .unknownVariable name.toUpper ∧ session.Lacks name) ∧
    (∀ name value error, (session.set name value).1 = .error error ↔
      error = .unknownVariable name.toUpper ∧ session.Lacks name) ∧
    ∀ command error, (session.perform command).1 = .error error →
      (session.perform command).2 = session := by
  intro session
  have hspelling : session.spelling = spelling := spelling_after (new settings spelling) commands
  obtain ⟨hcurrent, -⟩ := (current_new settings spelling).after commands
  refine ⟨fun text error => ?_, fun name error => hcurrent.change_eq_error_iff,
    fun name value error => hcurrent.change_eq_error_iff, fun command error => ?_⟩
  · rw [← hspelling]
    exact setExpression_eq_error_iff
  · exact eq_of_perform_eq_error

end Session

end Schematic
