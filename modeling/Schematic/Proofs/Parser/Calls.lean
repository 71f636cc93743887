import Mathlib.Algebra.Order.Ring.Nat
import Schematic.Proofs.Parser.Limit

/-!
# Running a parser again

A parser may be run again and again. It goes on where it stopped, and the constructs that were open
when it failed count as open for good. The levels open from before only move the depth and the limit
up (`run_raise`), so a run is that of a new parser whose limit is lower by as many. Where the tokens
end with the end of the text, a run stops at a token: before the first end, before a token that is
wrong, or behind one that nests too deep (`Halts`, `halts_run`).

Main result: what every call answers and where it leaves the parser, however many calls came before
(`calls_as_fresh`).
-/

namespace Schematic.Parser

variable {limit : Nat}

/-! ### Levels open from before -/

/-- The fault as a parser with another limit reports it. -/
def Fault.withLimit (limit : Nat) : Fault → Fault
  | unexpected position wanted found => .unexpected position wanted found
  | tooDeep position _ => .tooDeep position limit

/-- The state with more levels open from before. -/
def State.raise (state : State) (more : Nat) : State := { state with depth := state.depth + more }

/-- What a step does where more levels are open from before. -/
def Step.raise (more : Nat) : Step → Step
  | shift state => .shift (state.raise more)
  | accept formula => .accept formula
  | refuse wanted => .refuse wanted
  | overflow => .overflow

namespace State

variable {state : State}

/-- How many `!`s and parentheses the groups of the state have open. -/
def opened (state : State) : Nat := state.group.nots + (state.outer.map (·.nots + 1)).sum

/-- Levels open from before move the depth and the limit up, and make no other difference. -/
theorem step_raise (h : state.opened ≤ state.depth) (limit more : Nat) (kind : Token.Kind) :
    (state.raise more).step (limit + more) kind = (state.step limit kind).raise more := by
  obtain ⟨phase, group, outer, depth⟩ := state
  have hlevel : limit + more ≤ depth + more ↔ limit ≤ depth := Nat.add_le_add_iff_right
  cases phase with
  | operand =>
    cases kind with
    | identifier name =>
      have hnots : depth + more - group.nots = depth - group.nots + more := by
        simp only [opened] at h
        omega
      simp only [step.eq_def, raise, Step.raise, addOperand, hnots]
    | not | openParen =>
      simp only [step.eq_def, raise, descend, hlevel]
      split
      · rfl
      · simp only [Step.raise, raise, Nat.add_right_comm]
    | and | or | closeParen | endOfInput => rfl
  | operator =>
    cases kind with
    | closeParen =>
      cases outer with
      | nil => rfl
      | cons around outer =>
        have hnots : depth + more - 1 - around.nots = depth - 1 - around.nots + more := by
          simp only [opened, List.map_cons, List.sum_cons] at h
          omega
        simp only [step.eq_def, raise, Step.raise, addOperand, hnots]
    | endOfInput => cases outer <;> rfl
    | identifier | not | and | or | openParen => rfl

/-- The levels that the groups around the innermost one take are those they have open. -/
theorem levels_add_of_opened {outer : List Group} {kinds : List Token.Kind} {levels : Nat}
    (h : Opened limit outer kinds levels) : levels + (outer.map (·.nots + 1)).sum = limit := by
  induction h with
  | nil => rfl
  | cons _ _ ih =>
    rw [List.map_cons, List.sum_cons]
    omega

/-- A state that is a record of tokens counts what its groups have open, within the limit. -/
theorem Records.depth_eq {kinds : List Token.Kind} (h : state.Records limit kinds) :
    state.depth = state.opened ∧ state.depth ≤ limit := by
  obtain ⟨levels, before, inside, houter, -, -, hdepth⟩ := h
  have hlevels := levels_add_of_opened houter
  rw [opened]
  omega

/-- What makes the machine accept is the end, behind a whole formula. -/
theorem of_step_eq_accept {kind : Token.Kind} {f : Formula}
    (h : state.step limit kind = .accept f) : kind = .endOfInput ∧ state.finish = .ok f := by
  have hkind : kind = .endOfInput :=
    Decidable.byContradiction fun hne => state.step_ne_accept limit hne f h
  rw [hkind, step_endOfInput] at h
  cases hfinish : state.finish with
  | error wanted =>
    rw [hfinish] at h
    cases h
  | ok g =>
    rw [hfinish] at h
    cases h
    exact ⟨hkind, rfl⟩

/-- Where the machine can finish, nothing is open. -/
theorem Records.depth_eq_zero {kinds : List Token.Kind} {f : Formula}
    (h : state.Records limit kinds) (hfinish : state.finish = .ok f) : state.depth = 0 := by
  rw [h.depth_eq.1]
  obtain ⟨levels, before, inside, -, hgroup, -, -⟩ := h
  obtain ⟨phase, group, outer, depth⟩ := state
  cases phase with
  | operand => cases hfinish
  | operator =>
    cases outer with
    | cons around outer => cases hfinish
    | nil =>
      have hgroup : group.Complete (levels + group.nots) inside := hgroup
      exact hgroup.nots_eq_zero

end State

/-- A run with more levels open from before stops where it would without them, with as many more
open, and reports its own limit. -/
theorem run_raise {state : State} {kinds : List Token.Kind} (h : state.Records limit kinds)
    (endPosition more : Nat) (tokens : List Token) :
    run (limit + more) endPosition (state.raise more) tokens =
      ((run limit endPosition state tokens).1.mapError (·.withLimit (limit + more)),
        (run limit endPosition state tokens).2.1,
        (run limit endPosition state tokens).2.2 + more) := by
  induction tokens generalizing state kinds with
  | nil =>
    have hfinish : (state.raise more).finish = state.finish := rfl
    rw [run, run, hfinish]
    cases state.finish <;> rfl
  | cons token tokens ih =>
    have hstep := State.step_raise (Nat.le_of_eq h.depth_eq.1.symm) limit more token.kind
    rw [run, run, hstep]
    cases hshift : state.step limit token.kind with
    | shift next => exact ih (h.shift (State.step_eq_shift_iff.1 hshift))
    | accept f => rfl
    | refuse wanted => rfl
    | overflow => rfl

/-! ### Where runs stop -/

/-- What a run that comes to an end finds, which tokens it leaves and how many levels are open
then. -/
inductive Halts (limit : Nat) (tokens : List Token) :
    Except Fault Formula × List Token × Nat → Prop where
  /-- It stops before the first end, and nothing is open. -/
  | accept {before after : List Token} {token : Token} (f : Formula) :
    tokens = before ++ token :: after → (∀ other ∈ before, other.kind ≠ .endOfInput) →
      token.kind = .endOfInput → Halts limit tokens (.ok f, token :: after, 0)
  /-- It stops before a token that is wrong. -/
  | refuse {before after : List Token} {token : Token} {depth : Nat} (wanted : Wanted) :
    tokens = before ++ token :: after → depth ≤ limit →
      Halts limit tokens
        (.error (.unexpected token.position wanted token.kind), token :: after, depth)
  /-- It stops behind a token that nests too deep, with as many levels open as the limit allows. -/
  | overflow {before after : List Token} {token : Token} :
    tokens = before ++ token :: after → token.kind ≠ .endOfInput →
      Halts limit tokens (.error (.tooDeep token.position limit), after, limit)

theorem Halts.cons {tokens : List Token} {token : Token}
    {outcome : Except Fault Formula × List Token × Nat} (h : Halts limit tokens outcome)
    (htoken : token.kind ≠ .endOfInput) : Halts limit (token :: tokens) outcome := by
  cases h with
  | accept f htokens hbefore hend =>
    subst htokens
    exact .accept f (List.cons_append ..).symm (List.forall_mem_cons.2 ⟨htoken, hbefore⟩) hend
  | refuse wanted htokens hdepth =>
    subst htokens
    exact .refuse wanted (List.cons_append ..).symm hdepth
  | overflow htokens hkind =>
    subst htokens
    exact .overflow (List.cons_append ..).symm hkind

/-- Where the end is among the tokens, a run stops at one of them. -/
theorem halts_run {state : State} {kinds : List Token.Kind} (h : state.Records limit kinds)
    (endPosition : Nat) {tokens : List Token} (hend : ∃ token ∈ tokens, token.kind = .endOfInput) :
    Halts limit tokens (run limit endPosition state tokens) := by
  induction tokens generalizing state kinds with
  | nil =>
    obtain ⟨token, hmem, -⟩ := hend
    cases hmem
  | cons token tokens ih =>
    rw [run]
    cases hstep : state.step limit token.kind with
    | shift next =>
      have hshift := State.step_eq_shift_iff.1 hstep
      have htoken := hshift.ne_endOfInput
      obtain ⟨other, hother, hkind⟩ := hend
      rcases List.mem_cons.1 hother with rfl | hother
      · exact absurd hkind htoken
      · exact (ih (h.shift hshift) ⟨other, hother, hkind⟩).cons htoken
    | accept f =>
      obtain ⟨htoken, hfinish⟩ := State.of_step_eq_accept hstep
      simp only [h.depth_eq_zero hfinish]
      exact .accept f (List.nil_append _).symm (List.forall_mem_nil _) htoken
    | refuse wanted => exact .refuse wanted (List.nil_append _).symm h.depth_eq.2
    | overflow =>
      have hdepth : state.depth = limit :=
        Nat.le_antisymm h.depth_eq.2 (State.le_depth_of_step_eq_overflow hstep)
      have hkind : token.kind ≠ .endOfInput := by
        intro hstop
        rcases (State.kind_of_step_eq_overflow hstep).2 with hopens | hopens
        · cases hstop.symm.trans hopens
        · cases hstop.symm.trans hopens
      simp only [hdepth]
      exact .overflow (List.nil_append _).symm hkind

/-! ### Calls -/

/-- The parser after so many calls. -/
def afterCalls (parser : Parser) : Nat → Parser
  | 0 => parser
  | count + 1 => (parser.afterCalls count).parse.2

/-- How many of the tokens the parser has read. -/
def current (parser : Parser) (tokens : List Token) : Nat := tokens.length - parser.rest.length

/-- A parser of the tokens between two calls. -/
structure Underway (tokens : List Token) (limit : Nat) (parser : Parser) : Prop where
  /-- The tokens that are left are the last ones. -/
  rest : parser.rest <:+ tokens
  /-- One is left at least. -/
  unread : parser.rest ≠ []
  /-- No more levels are open than the limit allows. -/
  depth_le : parser.depth ≤ limit
  /-- The limit stays as it is. -/
  limit_eq : parser.limit = limit
  /-- The end is where a parser of all the tokens finds it. -/
  endPosition_eq : parser.endPosition = (ofTokens tokens limit).endPosition

/-- Where a call leaves the parser, by what it answers. -/
inductive Leaves (tokens : List Token) (limit : Nat) (before after : Parser) :
    Except Fault Formula → Prop where
  /-- It stands at the first end among the tokens that were left, as deep as before. -/
  | found {f : Formula} {token : Token} : tokens[after.current tokens]? = some token →
    token.kind = .endOfInput →
    (∀ index other, before.current tokens ≤ index → index < after.current tokens →
      tokens[index]? = some other → other.kind ≠ .endOfInput) →
    after.depth = before.depth → Leaves tokens limit before after (.ok f)
  /-- It stands at the token that is reported. -/
  | unexpected {wanted : Wanted} {token : Token} : tokens[after.current tokens]? = some token →
    Leaves tokens limit before after (.error (.unexpected token.position wanted token.kind))
  /-- It stands behind the token that is reported, as deep as the limit allows. -/
  | tooDeep {index : Nat} {token : Token} : before.current tokens ≤ index →
    tokens[index]? = some token → after.current tokens = index + 1 → after.depth = limit →
    Leaves tokens limit before after (.error (.tooDeep token.position limit))

/-- A call that answers like a new parser of the tokens that are left, with the levels that are
left, and goes on in the tokens. -/
structure Call (tokens : List Token) (limit : Nat) (before : Parser)
    (answer : Except Fault Formula) (after : Parser) : Prop where
  /-- No more tokens have been read than there are. -/
  current_le : before.current tokens ≤ tokens.length
  /-- The others are left. -/
  rest_eq : before.rest = tokens.drop (before.current tokens)
  /-- No more levels are open than the limit allows. -/
  depth_le : before.depth ≤ limit
  /-- The answer is that of a new parser, but for the limit that is reported. -/
  answer_eq : answer =
    (Formula.ofTokens (tokens.drop (before.current tokens)) (limit - before.depth)).mapError
      (·.withLimit limit)
  /-- The answer tells where the parser stands. -/
  leaves : Leaves tokens limit before after answer
  /-- No token is given back. -/
  current_mono : before.current tokens ≤ after.current tokens
  /-- No level is given back. -/
  depth_mono : before.depth ≤ after.depth

namespace Underway

variable {tokens : List Token} {parser : Parser}

theorem rest_eq (h : Underway tokens limit parser) :
    parser.rest = tokens.drop (parser.current tokens) :=
  List.suffix_iff_eq_drop.1 h.rest

theorem getLast?_rest (h : Underway tokens limit parser) :
    parser.rest.getLast? = tokens.getLast? := by
  obtain ⟨read, hread⟩ := h.rest
  rw [← hread, List.getLast?_append, List.getLast?_eq_some_getLast h.unread, Option.some_or]

/-- A call does what a new parser of the tokens that are left does, with the levels that are
left. -/
theorem exists_halts (h : Underway tokens limit parser)
    (hend : ∃ token ∈ parser.rest, token.kind = .endOfInput) :
    ∃ answer rest depth, Halts (limit - parser.depth) parser.rest (answer, rest, depth) ∧
      Formula.ofTokens parser.rest (limit - parser.depth) = answer ∧
      parser.parse = (answer.mapError (·.withLimit limit),
        { parser with rest := rest, depth := depth + parser.depth }) := by
  have hrecords := State.records_start (limit - parser.depth)
  have hraise := run_raise hrecords parser.endPosition parser.depth parser.rest
  have hstart : (State.start 0).raise parser.depth = .start parser.depth := by
    simp only [State.raise, State.start, Nat.zero_add]
  rw [hstart, Nat.sub_add_cancel h.depth_le] at hraise
  have hposition : (ofTokens parser.rest (limit - parser.depth)).endPosition =
      parser.endPosition := by
    rw [h.endPosition_eq, ofTokens, ofTokens, h.getLast?_rest]
  refine ⟨_, _, _, halts_run hrecords parser.endPosition hend, ?_, ?_⟩
  · rw [← hposition]
    rfl
  · rw [parse, h.limit_eq, hraise]

theorem getElem?_current_add (h : Underway tokens limit parser) (index : Nat) :
    tokens[parser.current tokens + index]? = parser.rest[index]? := by
  rw [h.rest_eq, List.getElem?_drop]

theorem getElem?_of_read (h : Underway tokens limit parser) {read after : List Token}
    {token : Token} (hrest : parser.rest = read ++ token :: after) :
    tokens[parser.current tokens + read.length]? = some token := by
  rw [h.getElem?_current_add, hrest, List.getElem?_append_right (Nat.le_refl _), Nat.sub_self,
    List.getElem?_cons_zero]

/-- A parser that has read more stands so many tokens further on. -/
theorem current_eq (h : Underway tokens limit parser) (other : Parser) {read : List Token}
    (hrest : parser.rest = read ++ other.rest) :
    other.current tokens = parser.current tokens + read.length := by
  have hle := h.rest.length_le
  rw [hrest, List.length_append] at hle
  rw [current, current, hrest, List.length_append]
  omega

/-- A parser that has read more is underway if something is left for it. -/
theorem of_read (h : Underway tokens limit parser) {read rest : List Token} {depth : Nat}
    (hrest : parser.rest = read ++ rest) (hunread : rest ≠ []) (hdepth : depth ≤ limit) :
    Underway tokens limit { parser with rest := rest, depth := depth } :=
  ⟨List.IsSuffix.trans ⟨read, hrest.symm⟩ h.rest, hunread, hdepth, h.limit_eq, h.endPosition_eq⟩

/-- The tokens read before a place are not the end if those left out are not. -/
theorem ne_endOfInput_of_read (h : Underway tokens limit parser) {read rest : List Token}
    (hrest : parser.rest = read ++ rest) (hread : ∀ token ∈ read, token.kind ≠ .endOfInput)
    {index : Nat} {token : Token} (hle : parser.current tokens ≤ index)
    (hlt : index < parser.current tokens + read.length) (htoken : tokens[index]? = some token) :
    token.kind ≠ .endOfInput := by
  obtain ⟨offset, rfl⟩ := Nat.exists_eq_add_of_le hle
  rw [h.getElem?_current_add, hrest, List.getElem?_append_left (by omega)] at htoken
  exact hread token (List.mem_of_getElem? htoken)

/-- A parser that stops where a run does is underway, and its answer tells where it stands. -/
theorem leaves_of_halts (h : Underway tokens limit parser) {ending : Token}
    (hlast : parser.rest.getLast? = some ending) (hkind : ending.kind = .endOfInput)
    {answer : Except Fault Formula} {rest : List Token} {depth : Nat}
    (hhalts : Halts (limit - parser.depth) parser.rest (answer, rest, depth)) :
    let after : Parser := { parser with rest := rest, depth := depth + parser.depth }
    Leaves tokens limit parser after (answer.mapError (·.withLimit limit)) ∧
      parser.current tokens ≤ after.current tokens ∧ Underway tokens limit after := by
  intro after
  cases hhalts with
  | @accept before others token f hrest hbefore htoken =>
    have hcurrent := h.current_eq { parser with rest := token :: others } hrest
    refine ⟨.found ?_ htoken ?_ (Nat.zero_add _), hcurrent ▸ Nat.le_add_right ..,
      h.of_read hrest (List.cons_ne_nil _ _) (by rw [Nat.zero_add]; exact h.depth_le)⟩
    · exact hcurrent ▸ h.getElem?_of_read hrest
    · exact fun index other hle hlt => h.ne_endOfInput_of_read hrest hbefore hle (hcurrent ▸ hlt)
  | @refuse before others token depth wanted hrest hdepth =>
    have hcurrent := h.current_eq { parser with rest := token :: others } hrest
    refine ⟨.unexpected ?_, hcurrent ▸ Nat.le_add_right ..,
      h.of_read hrest (List.cons_ne_nil _ _) (Nat.add_le_of_le_sub h.depth_le hdepth)⟩
    exact hcurrent ▸ h.getElem?_of_read hrest
  | @overflow before _ token hrest htoken =>
    have hread : parser.rest = (before ++ [token]) ++ rest := by
      rw [hrest, List.append_assoc, List.singleton_append]
    have hcurrent := h.current_eq { parser with rest := rest } hread
    -- The end is still to come, since it is not what nests too deep.
    have hunread : rest ≠ [] := by
      rintro rfl
      rw [hrest, List.getLast?_concat, Option.some.injEq] at hlast
      exact htoken (hlast ▸ hkind)
    have hdepth := Nat.sub_add_cancel h.depth_le
    rw [List.length_append, List.length_singleton] at hcurrent
    refine ⟨.tooDeep (Nat.le_add_right ..) (h.getElem?_of_read hrest) hcurrent hdepth, ?_,
      h.of_read hread hunread (Nat.le_of_eq hdepth)⟩
    exact hcurrent ▸ Nat.le_add_right ..

/-- Every call answers like a new parser, and leaves the parser underway. -/
theorem call (h : Underway tokens limit parser)
    (hend : ∃ token, tokens.getLast? = some token ∧ token.kind = .endOfInput) :
    Call tokens limit parser parser.parse.1 parser.parse.2 ∧
      Underway tokens limit parser.parse.2 := by
  obtain ⟨ending, hlast, hkind⟩ := hend
  rw [← h.getLast?_rest] at hlast
  obtain ⟨answer, rest, depth, hhalts, hanswer, hparse⟩ :=
    h.exists_halts ⟨ending, List.mem_of_getLast? hlast, hkind⟩
  obtain ⟨hleaves, hcurrent, hunderway⟩ := h.leaves_of_halts hlast hkind hhalts
  rw [hparse]
  refine ⟨⟨Nat.sub_le .., h.rest_eq, h.depth_le, ?_, hleaves, hcurrent, Nat.le_add_left ..⟩,
    hunderway⟩
  rw [← h.rest_eq, hanswer]

end Underway

theorem underway_ofTokens {tokens : List Token} (h : tokens ≠ []) (limit : Nat) :
    Underway tokens limit (ofTokens tokens limit) :=
  ⟨List.suffix_refl _, h, Nat.zero_le _, rfl, rfl⟩

/-- However many calls there were, the parser is underway. -/
theorem underway_afterCalls (limit : Nat) {tokens : List Token}
    (hend : ∃ token, tokens.getLast? = some token ∧ token.kind = .endOfInput) (count : Nat) :
    Underway tokens limit ((ofTokens tokens limit).afterCalls count) := by
  induction count with
  | zero =>
    obtain ⟨token, hlast, -⟩ := hend
    exact underway_ofTokens (by rintro rfl; cases hlast) limit
  | succ count ih => exact (ih.call hend).2

/-! ### Calls at the end -/

/-- Before the end a parser is refused an operand, and stays where it is. -/
theorem parse_of_end {parser : Parser} {token : Token} {after : List Token}
    (hrest : parser.rest = token :: after) (htoken : token.kind = .endOfInput) :
    parser.parse = (.error (.unexpected token.position .operand .endOfInput), parser) := by
  obtain ⟨rest, depth, limit, endPosition⟩ := parser
  obtain ⟨kind, position⟩ := token
  cases hrest
  cases htoken
  rfl

/-- So it stays there for good. -/
theorem afterCalls_of_end {parser : Parser} {token : Token} {after : List Token}
    (hrest : parser.rest = token :: after) (htoken : token.kind = .endOfInput) (count : Nat) :
    parser.afterCalls count = parser := by
  induction count with
  | zero => rfl
  | succ count ih => rw [afterCalls, ih, parse_of_end hrest htoken]

theorem afterCalls_add (parser : Parser) (count more : Nat) :
    parser.afterCalls (count + more) = (parser.afterCalls count).afterCalls more := by
  induction more with
  | zero => rfl
  | succ more ih => rw [← Nat.add_assoc, afterCalls, ih, afterCalls]

/-- **Calling a parser again** is running a new one on the tokens that are left, with the levels
that are left: however many calls there were, the next one gives that answer and goes on from where
the last one stopped. Once a formula has been found, every further call reports the end behind
it. -/
theorem calls_as_fresh (body : List Token) (position limit count : Nat) :
    let tokens := body ++ [⟨.endOfInput, position⟩]
    let parser := (ofTokens tokens limit).afterCalls count
    Call tokens limit parser parser.parse.1 parser.parse.2 ∧
      ∀ f, parser.parse.1 = .ok f →
        ∃ token, tokens[parser.parse.2.current tokens]? = some token ∧ token.kind = .endOfInput ∧
          ∀ later, count < later → ((ofTokens tokens limit).afterCalls later).parse.1 =
            .error (.unexpected token.position .operand .endOfInput) := by
  intro tokens parser
  have hend : ∃ token, tokens.getLast? = some token ∧ token.kind = .endOfInput :=
    ⟨_, List.getLast?_concat .., rfl⟩
  obtain ⟨hcall, hunderway⟩ := (underway_afterCalls limit hend count).call hend
  refine ⟨hcall, fun f hf => ?_⟩
  have hleaves : Leaves tokens limit parser parser.parse.2 (.ok f) := hf ▸ hcall.leaves
  cases hleaves with
  | @found _ token htoken hkind _ _ =>
    refine ⟨token, htoken, hkind, fun later hlater => ?_⟩
    obtain ⟨more, rfl⟩ := Nat.exists_eq_add_of_le hlater
    have hrest :
        parser.parse.2.rest = token :: tokens.drop (parser.parse.2.current tokens + 1) := by
      obtain ⟨hlt, htoken⟩ := List.getElem?_eq_some_iff.1 htoken
      rw [hunderway.rest_eq, List.drop_eq_getElem_cons hlt, htoken]
    have hstays : (ofTokens tokens limit).afterCalls (count + 1 + more) = parser.parse.2 := by
      rw [afterCalls_add]
      exact afterCalls_of_end hrest hkind more
    rw [hstays, parse_of_end hrest hkind]

end Schematic.Parser
