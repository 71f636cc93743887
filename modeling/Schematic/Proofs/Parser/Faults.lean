import Schematic.Proofs.Parser.Machine

/-!
# Where a fault stands

The machine reads tokens as long as they can still become a formula: from every state there is a
way to a whole one, by a variable where an operand is missing and by a closing parenthesis for
every group that is open. So the token that stops it is the first one that no formula goes on
with, and what the fault asks for instead can stand there.

Main result: every fault says so, with its place and what was found there
(`fault_at_first_misfit`).
-/

namespace Schematic.Parser

namespace State

variable {limit : Nat} {state : State}

/-! ### The way to a whole formula -/

/-- A variable can be read where an operand is missing. -/
theorem exists_shift_identifier (limit : Nat) (hphase : state.phase = .operand) (name : Char) :
    ∃ next, Shift limit state (.identifier name) next ∧ next.phase = .operator := by
  obtain ⟨phase, group, outer, depth⟩ := state
  cases hphase
  exact ⟨_, .identifier group outer depth name, rfl⟩

/-- A closing parenthesis can be read behind an operand inside a group. -/
theorem exists_shift_closeParen (limit : Nat) (hphase : state.phase = .operator)
    (houter : state.outer ≠ []) :
    ∃ next, Shift limit state .closeParen next ∧ next.phase = .operator := by
  obtain ⟨phase, group, outer, depth⟩ := state
  cases hphase
  cases outer with
  | nil => exact absurd rfl houter
  | cons around outer => exact ⟨_, .closeParen group around outer depth, rfl⟩

/-- Behind an operand, the closing parentheses that are missing make a whole formula. -/
theorem exists_reads_closing (limit : Nat) (hphase : state.phase = .operator) :
    ∃ last f, state.reads limit (List.replicate state.outer.length .closeParen) = some last ∧
      last.finish = .ok f := by
  obtain ⟨phase, group, outer, depth⟩ := state
  cases hphase
  induction outer generalizing group depth with
  | nil => exact ⟨_, _, rfl, rfl⟩
  | cons around outer ih =>
    obtain ⟨last, f, hreads, hfinish⟩ :=
      ih (around.addOperand group.formula) (depth - 1 - around.nots)
    refine ⟨last, f, ?_, hfinish⟩
    rw [List.length_cons, List.replicate_succ,
      reads_cons_of_shift (.closeParen group around outer depth)]
    exact hreads

/-! ### What stops the machine -/

/-- A token of the kind at the position stops the machine, with the fault. -/
inductive Stops (limit position : Nat) (state : State) (kind : Token.Kind) : Fault → Prop where
  /-- It cannot be read. -/
  | refuse {wanted : Wanted} : state.step limit kind = .refuse wanted →
    Stops limit position state kind (.unexpected position wanted kind)
  /-- It opens one level too many. -/
  | overflow : state.step limit kind = .overflow →
    Stops limit position state kind (.tooDeep position limit)

theorem Stops.step_ne_shift {position : Nat} {kind : Token.Kind} {fault : Fault}
    (h : state.Stops limit position kind fault) (next : State) :
    state.step limit kind ≠ .shift next := by
  cases h with
  | refuse hstep | overflow hstep => rw [hstep]; nofun

theorem Stops.step_ne_accept {position : Nat} {kind : Token.Kind} {fault : Fault}
    (h : state.Stops limit position kind fault) (f : Formula) :
    state.step limit kind ≠ .accept f := by
  cases h with
  | refuse hstep | overflow hstep => rw [hstep]; nofun

/-- What the machine wants in place of a token that it cannot read. -/
theorem wanted_of_step_eq_refuse {kind : Token.Kind} {wanted : Wanted}
    (h : state.step limit kind = .refuse wanted) :
    wanted = .operand ∧ state.phase = .operand ∨
      wanted = .closing ∧ state.phase = .operator ∧ state.outer ≠ [] ∨
      wanted = .ending ∧ state.phase = .operator ∧ state.outer = [] := by
  obtain ⟨phase, group, outer, depth⟩ := state
  cases phase with
  | operand =>
    refine .inl ⟨?_, rfl⟩
    cases kind <;> simp only [step.eq_def, descend, finish] at h <;> grind
  | operator =>
    cases outer with
    | nil =>
      refine .inr (.inr ⟨?_, rfl, rfl⟩)
      cases kind <;> simp only [step.eq_def, finish, wantedAfterOperand] at h <;> grind
    | cons around outer =>
      refine .inr (.inl ⟨?_, rfl, List.cons_ne_nil around outer⟩)
      cases kind <;> simp only [step.eq_def, finish, wantedAfterOperand] at h <;> grind

/-- Where an operand is missing, a `!` or an opening parenthesis may be one too many. -/
theorem kind_of_step_eq_overflow {kind : Token.Kind} (h : state.step limit kind = .overflow) :
    state.phase = .operand ∧ (kind = .not ∨ kind = .openParen) := by
  obtain ⟨phase, group, outer, depth⟩ := state
  cases phase with
  | operand =>
    refine ⟨rfl, ?_⟩
    cases kind <;> simp only [step.eq_def, descend, finish] at h <;> grind
  | operator => cases kind <;> cases outer <;> cases h

end State

/-! ### Runs that fail -/

variable {limit : Nat} {tokens : List Token}

/-- The kind of the first token, the end if there is none. -/
def nextKind (tokens : List Token) : Token.Kind := tokens.head?.elim .endOfInput (·.kind)

/-- A run that fails reads the tokens before one that stops the machine; where the tokens run out,
the end stops it. -/
theorem exists_stops_of_run_eq_error {endPosition : Nat} {state : State} {fault : Fault}
    (h : (run limit endPosition state tokens).1 = .error fault) :
    ∃ before after last, tokens = before ++ after ∧
      (∀ token ∈ before, token.kind ≠ .endOfInput) ∧
      state.reads limit (before.map (·.kind)) = some last ∧
      last.Stops limit (after.head?.elim endPosition (·.position)) (nextKind after) fault := by
  induction tokens generalizing state with
  | nil =>
    refine ⟨[], [], state, rfl, by simp, rfl, ?_⟩
    cases hfinish : state.finish with
    | ok f =>
      rw [run, hfinish] at h
      cases h
    | error wanted =>
      rw [run, hfinish] at h
      cases h
      have hstep : state.step limit .endOfInput = .refuse wanted := by
        rw [State.step_endOfInput, hfinish]
      exact .refuse hstep
  | cons token tokens ih =>
    cases hstep : state.step limit token.kind with
    | shift next =>
      rw [run, hstep] at h
      obtain ⟨before, after, last, rfl, hend, hreads, hstops⟩ := ih h
      have hshift := State.step_eq_shift_iff.1 hstep
      refine ⟨token :: before, after, last, rfl, ?_, ?_, hstops⟩
      · exact List.forall_mem_cons.2 ⟨hshift.ne_endOfInput, hend⟩
      · rwa [List.map_cons, State.reads_cons_of_shift hshift]
    | accept f =>
      rw [run, hstep] at h
      cases h
    | refuse wanted =>
      rw [run, hstep] at h
      cases h
      exact ⟨[], token :: tokens, state, rfl, by simp, rfl, .refuse hstep⟩
    | overflow =>
      rw [run, hstep] at h
      cases h
      exact ⟨[], token :: tokens, state, rfl, by simp, rfl, .overflow hstep⟩

/-! ### Tokens that can be completed -/

/-- Some tokens that begin with these are a formula within the limit. -/
def Completable (limit : Nat) (tokens : List Token) : Prop :=
  ∃ more f, Formula.ofTokens (tokens ++ more) limit = .ok f

/-- Tokens can be completed if the machine reads them and stands behind an operand. -/
theorem completable_of_reads {state : State} (hend : ∀ token ∈ tokens, token.kind ≠ .endOfInput)
    (hreads : (State.start 0).reads limit (tokens.map (·.kind)) = some state)
    (hphase : state.phase = .operator) : Completable limit tokens := by
  obtain ⟨last, f, hclosing, hfinish⟩ := state.exists_reads_closing limit hphase
  have hkinds : kindsBeforeEnd (List.replicate state.outer.length ⟨.closeParen, 0⟩) =
      List.replicate state.outer.length .closeParen := by
    simp [kindsBeforeEnd]
  refine ⟨List.replicate state.outer.length ⟨.closeParen, 0⟩, f, ?_⟩
  refine ofTokens_eq_ok_iff.2 ⟨last, ?_, hfinish⟩
  rw [kindsBeforeEnd_append hend, State.reads_append, hreads, Option.bind_some, hkinds, hclosing]

/-- The same with one more token, which the machine can read. -/
theorem completable_concat_of_shift {state next : State} {token : Token}
    (hend : ∀ token ∈ tokens, token.kind ≠ .endOfInput)
    (hreads : (State.start 0).reads limit (tokens.map (·.kind)) = some state)
    (hshift : State.Shift limit state token.kind next) (hphase : next.phase = .operator) :
    Completable limit (tokens ++ [token]) := by
  refine completable_of_reads ?_ ?_ hphase
  · exact List.forall_mem_append.2 ⟨hend, by simpa using hshift.ne_endOfInput⟩
  · rw [List.map_append, State.reads_append, hreads, Option.bind_some]
    exact State.reads_cons_of_shift hshift []

/-- With a token that stops the machine no formula begins. -/
theorem not_completable_of_stops {state : State} {token : Token} {position : Nat} {fault : Fault}
    (hend : ∀ token ∈ tokens, token.kind ≠ .endOfInput)
    (hreads : (State.start 0).reads limit (tokens.map (·.kind)) = some state)
    (hstops : state.Stops limit position token.kind fault) (more : List Token) (f : Formula) :
    Formula.ofTokens (tokens ++ token :: more) limit ≠ .ok f := by
  intro h
  obtain ⟨last, hlast, hfinish⟩ := ofTokens_eq_ok_iff.1 h
  rw [kindsBeforeEnd_append hend, State.reads_append, hreads, Option.bind_some] at hlast
  by_cases htoken : token.kind = .endOfInput
  · rw [kindsBeforeEnd_cons_of_eq htoken] at hlast
    cases hlast
    have hstep := state.step_endOfInput limit
    rw [hfinish, ← htoken] at hstep
    exact hstops.step_ne_accept f hstep
  · rw [kindsBeforeEnd_cons_of_ne htoken, State.reads_cons_eq_some_iff] at hlast
    obtain ⟨next, hshift, -⟩ := hlast
    exact hstops.step_ne_shift next (State.step_eq_shift_iff.2 hshift)

/-! ### The first misfit -/

/-- Where the tokens stand that come after others: at the first of them, or else behind the last
one before. -/
def nextPosition (before after : List Token) : Nat :=
  after.head?.elim (before.getLast?.elim 0 (·.position + 1)) (·.position)

/-- The position is the one that a parser of all the tokens counts. -/
theorem nextPosition_eq (before after : List Token) (limit : Nat) : nextPosition before after =
    after.head?.elim (ofTokens (before ++ after) limit).endPosition (·.position) := by
  cases after with
  | nil =>
    rw [nextPosition, ofTokens, List.append_nil]
    cases before.getLast? <;> rfl
  | cons token after => rfl

/-- The error says where reading stopped, what was found there and what can stand there instead. -/
inductive Explains (limit : Nat) (before after : List Token) : Error → Prop where
  /-- Any variable can follow. -/
  | operand : (∀ name position, Completable limit (before ++ [⟨.identifier name, position⟩])) →
    Explains limit before after
      (.unexpectedToken (nextPosition before after) "identifier or '('" (nextKind after).text)
  /-- A closing parenthesis can follow. -/
  | closing : (∀ position, Completable limit (before ++ [⟨.closeParen, position⟩])) →
    Explains limit before after
      (.unexpectedToken (nextPosition before after) "')'" (nextKind after).text)
  /-- The tokens before are a formula. -/
  | ending : (∃ f, Formula.ofTokens before limit = .ok f) →
    Explains limit before after
      (.unexpectedToken (nextPosition before after) "end of input" (nextKind after).text)
  /-- A `!` or an opening parenthesis is one too many, and any variable can follow. -/
  | tooDeep : nextKind after = .not ∨ nextKind after = .openParen →
    (∀ name position, Completable limit (before ++ [⟨.identifier name, position⟩])) →
    Explains limit before after (.nestingTooDeep (nextPosition before after) limit)

/-- What stops the machine explains why. -/
theorem explains_of_stops {before after : List Token} {state : State} {fault : Fault}
    (hend : ∀ token ∈ before, token.kind ≠ .endOfInput)
    (hreads : (State.start 0).reads limit (before.map (·.kind)) = some state)
    (hstops : state.Stops limit (nextPosition before after) (nextKind after) fault) :
    Explains limit before after fault.toError := by
  have hidentifier (hphase : state.phase = .operand) (name : Char) (position : Nat) :
      Completable limit (before ++ [⟨.identifier name, position⟩]) := by
    obtain ⟨next, hshift, hnext⟩ := State.exists_shift_identifier limit hphase name
    exact completable_concat_of_shift hend hreads hshift hnext
  cases hstops with
  | refuse hstep =>
    rcases State.wanted_of_step_eq_refuse hstep with
      ⟨rfl, hphase⟩ | ⟨rfl, hphase, houter⟩ | ⟨rfl, hphase, houter⟩
    · exact .operand (hidentifier hphase)
    · refine .closing fun position => ?_
      obtain ⟨next, hshift, hnext⟩ := State.exists_shift_closeParen limit hphase houter
      exact completable_concat_of_shift hend hreads hshift hnext
    · refine .ending ⟨state.group.formula, ofTokens_eq_ok_iff.2 ⟨state, ?_, ?_⟩⟩
      · have hkinds : kindsBeforeEnd (before ++ []) = before.map (·.kind) ++ [] :=
          kindsBeforeEnd_append hend []
        rwa [← List.append_nil before, hkinds, List.append_nil]
      · rw [State.finish, hphase, houter]
  | overflow hstep =>
    obtain ⟨hphase, hkind⟩ := State.kind_of_step_eq_overflow hstep
    exact .tooDeep hkind (hidentifier hphase)

/-- **A fault stands at the first misfit**: the tokens before it begin a formula and contain no
end, what the error expects can follow them, and with the token that follows them instead no
formula begins. -/
theorem fault_at_first_misfit {fault : Fault} (h : Formula.ofTokens tokens limit = .error fault) :
    ∃ before after, tokens = before ++ after ∧
      (∀ token ∈ before, token.kind ≠ .endOfInput) ∧
      Explains limit before after fault.toError ∧
      ∀ token ∈ after.head?, ¬ Completable limit (before ++ [token]) := by
  obtain ⟨before, after, state, rfl, hend, hreads, hstops⟩ := exists_stops_of_run_eq_error h
  refine ⟨before, after, rfl, hend, explains_of_stops hend hreads ?_, ?_⟩
  · rwa [nextPosition_eq before after limit]
  · rintro token htoken ⟨more, f, hf⟩
    rw [nextKind, Option.mem_def.1 htoken, Option.elim_some] at hstops
    rw [List.append_assoc] at hf
    exact not_completable_of_stops hend hreads hstops more f hf

/-- In `A.(B+)` the closing parenthesis is the misfit: after `A.(B+` a variable can follow. -/
theorem fault_at_first_misfit_closeParen :
    let tokens : List Token := [⟨.identifier 'A', 0⟩, ⟨.and, 1⟩, ⟨.openParen, 2⟩,
      ⟨.identifier 'B', 3⟩, ⟨.or, 4⟩, ⟨.closeParen, 5⟩, ⟨.endOfInput, 6⟩]
    Formula.ofTokens tokens 1 = .error (.unexpected 5 .operand .closeParen) ∧
    ∃ before after, tokens = before ++ after ∧
      (∀ token ∈ before, token.kind ≠ .endOfInput) ∧
      Explains 1 before after (.unexpectedToken 5 "identifier or '('" "')'") ∧
      ∀ token ∈ after.head?, ¬ Completable 1 (before ++ [token]) := by
  intro tokens
  have h : Formula.ofTokens tokens 1 = .error (.unexpected 5 .operand .closeParen) := rfl
  exact ⟨h, fault_at_first_misfit h⟩

end Schematic.Parser
