import Schematic.Formula.Parser

/-!
# What the machine does with the tokens before the end

A token other than the end is read or it stops the machine. `Shift` lists what reading a token
does, one constructor for each kind of token that can be read in each phase, and `State.reads`
reads several tokens one after the other.

Main results: a run finds a formula exactly when the machine reads all tokens before the first end
and can finish there (`run_eq_ok_iff`); with a lower limit a run gives the same result or reports
the lower limit (`run_of_le_limit`).
-/

namespace Schematic.Parser

/-- The kinds of the tokens before the first end. -/
def kindsBeforeEnd (tokens : List Token) : List Token.Kind :=
  (tokens.map (·.kind)).takeWhile (· ≠ .endOfInput)

theorem kindsBeforeEnd_cons_of_eq {token : Token} (h : token.kind = .endOfInput)
    (tokens : List Token) : kindsBeforeEnd (token :: tokens) = [] := by
  simp [kindsBeforeEnd, h]

theorem kindsBeforeEnd_cons_of_ne {token : Token} (h : token.kind ≠ .endOfInput)
    (tokens : List Token) :
    kindsBeforeEnd (token :: tokens) = token.kind :: kindsBeforeEnd tokens := by
  simp [kindsBeforeEnd, h]

theorem kindsBeforeEnd_append {tokens : List Token}
    (h : ∀ token ∈ tokens, token.kind ≠ .endOfInput) (more : List Token) :
    kindsBeforeEnd (tokens ++ more) = tokens.map (·.kind) ++ kindsBeforeEnd more := by
  rw [kindsBeforeEnd, List.map_append, List.takeWhile_append_of_pos (by simpa using h)]
  rfl

namespace State

/-! ### Reading one token -/

/-- The machine reads a token of the kind and goes on from the second state. -/
inductive Shift (limit : Nat) : State → Token.Kind → State → Prop where
  /-- A variable is an operand. -/
  | identifier (group : Group) (outer : List Group) (depth : Nat) (name : Char) :
    Shift limit ⟨.operand, group, outer, depth⟩ (.identifier name)
      ((⟨.operand, group, outer, depth⟩ : State).addOperand (.var name.toUpper))
  /-- A `!` waits for its operand. -/
  | not (group : Group) (outer : List Group) (depth : Nat) : depth < limit →
    Shift limit ⟨.operand, group, outer, depth⟩ .not ⟨.operand, group.addNot, outer, depth + 1⟩
  /-- An opening parenthesis starts a group. -/
  | openParen (group : Group) (outer : List Group) (depth : Nat) : depth < limit →
    Shift limit ⟨.operand, group, outer, depth⟩ .openParen
      ⟨.operand, .empty, group :: outer, depth + 1⟩
  /-- After a `.` another factor follows. -/
  | and (group : Group) (outer : List Group) (depth : Nat) :
    Shift limit ⟨.operator, group, outer, depth⟩ .and ⟨.operand, group, outer, depth⟩
  /-- A `+` ends the term. -/
  | or (group : Group) (outer : List Group) (depth : Nat) :
    Shift limit ⟨.operator, group, outer, depth⟩ .or ⟨.operand, group.endTerm, outer, depth⟩
  /-- A closing parenthesis makes its group an operand of the group around it. -/
  | closeParen (group around : Group) (outer : List Group) (depth : Nat) :
    Shift limit ⟨.operator, group, around :: outer, depth⟩ .closeParen
      ((⟨.operator, around, outer, depth - 1⟩ : State).addOperand group.formula)

theorem step_eq_shift_iff {limit : Nat} {state next : State} {kind : Token.Kind} :
    state.step limit kind = .shift next ↔ Shift limit state kind next := by
  constructor
  · intro h
    obtain ⟨phase, group, outer, depth⟩ := state
    cases phase <;> cases kind <;> simp only [step.eq_def, descend, finish] at h
    case operand.identifier name => cases h; exact .identifier group outer depth name
    case operand.not =>
      split at h
      · cases h
      · cases h; exact .not group outer depth (by omega)
    case operand.openParen =>
      split at h
      · cases h
      · cases h; exact .openParen group outer depth (by omega)
    case operator.and => cases h; exact .and group outer depth
    case operator.or => cases h; exact .or group outer depth
    case operator.closeParen =>
      cases outer with
      | nil => cases h
      | cons around outer => cases h; exact .closeParen group around outer depth
    case operator.endOfInput => cases outer <;> cases h
    all_goals cases h
  · intro h
    cases h with
    | not group outer depth hlt => simp [step.eq_def, descend, Nat.not_le.2 hlt]
    | openParen group outer depth hlt => simp [step.eq_def, descend, Nat.not_le.2 hlt]
    | identifier | and | or | closeParen => rfl

/-- The end is not read. -/
theorem Shift.ne_endOfInput {limit : Nat} {state next : State} {kind : Token.Kind}
    (h : Shift limit state kind next) : kind ≠ .endOfInput := by
  cases h <;> nofun

/-- At the end the machine accepts what it has read, if that is a whole formula. -/
theorem step_endOfInput (limit : Nat) (state : State) :
    state.step limit .endOfInput = state.finish.casesOn .refuse .accept := by
  simp only [step.eq_def]
  cases state.finish <;> rfl

/-- Only the end makes the machine accept. -/
theorem step_ne_accept (limit : Nat) (state : State) {kind : Token.Kind}
    (hkind : kind ≠ .endOfInput) (f : Formula) : state.step limit kind ≠ .accept f := by
  obtain ⟨phase, group, outer, depth⟩ := state
  cases phase <;> cases kind <;> simp only [step.eq_def, descend, ne_eq] at hkind ⊢
  case operand.not => split <;> nofun
  case operand.openParen => split <;> nofun
  case operator.closeParen => cases outer <;> nofun
  case operand.endOfInput => exact absurd trivial hkind
  case operator.endOfInput => exact absurd trivial hkind
  all_goals nofun

/-! ### Reading several tokens -/

/-- The state after tokens of these kinds, if the machine can read them all. -/
def reads (limit : Nat) (state : State) : List Token.Kind → Option State
  | [] => some state
  | kind :: kinds =>
    match state.step limit kind with
    | .shift next => next.reads limit kinds
    | _ => none

@[simp] theorem reads_nil (limit : Nat) (state : State) :
    state.reads limit [] = some state := rfl

theorem reads_cons_eq_some_iff {limit : Nat} {state last : State} {kind : Token.Kind}
    {kinds : List Token.Kind} :
    state.reads limit (kind :: kinds) = some last ↔
      ∃ next, Shift limit state kind next ∧ next.reads limit kinds = some last := by
  simp only [← step_eq_shift_iff, reads]
  cases state.step limit kind <;> simp

theorem reads_cons_of_shift {limit : Nat} {state next : State} {kind : Token.Kind}
    (h : Shift limit state kind next) (kinds : List Token.Kind) :
    state.reads limit (kind :: kinds) = next.reads limit kinds := by
  simp only [reads, step_eq_shift_iff.2 h]

theorem reads_append (limit : Nat) (state : State) (kinds more : List Token.Kind) :
    state.reads limit (kinds ++ more) =
      (state.reads limit kinds).bind fun next => next.reads limit more := by
  induction kinds generalizing state with
  | nil => rfl
  | cons kind kinds ih =>
    simp only [List.cons_append, reads]
    cases state.step limit kind <;> simp [ih]

end State

/-! ### Runs -/

variable {limit endPosition : Nat}

/-- A run finds a formula exactly if the machine reads all tokens before the first end, and has
read a whole formula then. -/
theorem run_eq_ok_iff {state : State} {tokens : List Token} {f : Formula} :
    (run limit endPosition state tokens).1 = .ok f ↔
      ∃ last, state.reads limit (kindsBeforeEnd tokens) = some last ∧ last.finish = .ok f := by
  induction tokens generalizing state with
  | nil =>
    simp only [run, kindsBeforeEnd, List.map_nil, List.takeWhile_nil, State.reads_nil,
      Option.some.injEq, exists_eq_left']
    cases state.finish with
    | error wanted => exact ⟨nofun, nofun⟩
    | ok g =>
      constructor
      · intro h
        cases h
        rfl
      · intro h
        cases h
        rfl
  | cons token tokens ih =>
    by_cases hend : token.kind = .endOfInput
    · rw [kindsBeforeEnd_cons_of_eq hend, run, hend, State.step_endOfInput]
      cases hfinish : state.finish <;> simp [hfinish]
    · rw [kindsBeforeEnd_cons_of_ne hend, run, State.reads]
      have haccept := State.step_ne_accept limit state hend
      cases hstep : state.step limit token.kind with
      | shift next => exact ih
      | accept g => exact absurd hstep (haccept g)
      | refuse wanted => simp
      | overflow => simp

/-- Tokens are a formula exactly if the machine reads all of them before the first end, and has
read a whole formula then. -/
theorem ofTokens_eq_ok_iff {tokens : List Token} {f : Formula} :
    Formula.ofTokens tokens limit = .ok f ↔
      ∃ last, (State.start 0).reads limit (kindsBeforeEnd tokens) = some last ∧
        last.finish = .ok f :=
  run_eq_ok_iff

/-- The limit matters for nothing but an overflow. -/
theorem State.step_of_le_limit {most : Nat} (hle : limit ≤ most) (state : State)
    (kind : Token.Kind) :
    state.step limit kind = .overflow ∨ state.step limit kind = state.step most kind := by
  obtain ⟨phase, group, outer, depth⟩ := state
  cases phase <;> cases kind <;> simp only [State.step.eq_def, State.descend, or_true]
  all_goals
    split
    · exact .inl rfl
    · exact .inr (by rw [if_neg (by omega)])

/-- With a lower limit a run ends as it does with the higher one, or reports the lower limit. -/
theorem run_of_le_limit {most : Nat} (hle : limit ≤ most) (state : State) (tokens : List Token) :
    (∃ position, (run limit endPosition state tokens).1 = .error (.tooDeep position limit)) ∨
      run limit endPosition state tokens = run most endPosition state tokens := by
  induction tokens generalizing state with
  | nil => exact .inr rfl
  | cons token tokens ih =>
    rcases State.step_of_le_limit hle state token.kind with hstep | hstep
    · exact .inl ⟨token.position, by rw [run, hstep]⟩
    · rw [run, run, hstep]
      cases hmost : state.step most token.kind with
      | shift next => exact ih next
      | accept f => exact .inr rfl
      | refuse wanted => exact .inr rfl
      | overflow =>
        rw [hmost] at hstep
        exact .inl ⟨token.position, rfl⟩

/-- The same of the formula that tokens are. -/
theorem ofTokens_of_le_limit {most : Nat} (hle : limit ≤ most) (tokens : List Token) :
    (∃ position, Formula.ofTokens tokens limit = .error (.tooDeep position limit)) ∨
      Formula.ofTokens tokens limit = Formula.ofTokens tokens most := by
  rcases run_of_le_limit hle (.start 0) tokens with h | h
  · exact .inl h
  · exact .inr (congrArg (·.1) h)

end Schematic.Parser
