import Schematic.Proofs.Parser.Grammar
import Schematic.Proofs.Parser.Machine

/-!
# What the machine has read is a phrase

The machine's state is a record of the tokens read so far. A group that waits for an operand has
read finished terms, each followed by `+`, then finished factors, each followed by `.`, and then
the `!`s that still have no operand (`Group.Pending`). A group that has its operand ends with a
factor (`Group.Complete`). The groups around the innermost one are all waiting, each for the
parenthesis opened last in it (`Opened`).

`State.Records` says this of a whole state. Reading a token keeps it (`State.Records.shift`), so it
holds after every run of the machine, and when the machine accepts, the tokens are a disjunction.
The levels that are left and the depth always make up the limit.
-/

namespace Schematic.Parser

open Grammar

/-! ### Chains -/

/-- The tokens of finished operands, each followed by its sign. -/
def signed (sign : Token.Kind) (parts : List (List Token.Kind × Formula)) : List Token.Kind :=
  parts.flatMap fun part => part.1 ++ [sign]

theorem signed_concat (sign : Token.Kind) (parts : List (List Token.Kind × Formula))
    (last : List Token.Kind × Formula) :
    signed sign (parts ++ [last]) = joined sign (parts ++ [last]) ++ [sign] := by
  rw [joined_concat]
  simp [signed]

variable {levels : Nat} {parts : List (List Token.Kind × Formula)}
  {last : List Token.Kind × Formula}

/-- A chain of factors is a conjunction, however long it is. -/
theorem derives_chain_and
    (h : ∀ part ∈ parts ++ [last], Derives .negation levels part.1 part.2) :
    Derives .conjunction levels (joined .and (parts ++ [last]))
      (chain .and ((parts ++ [last]).map (·.2))) := by
  cases parts with
  | nil => simpa [chain] using Derives.factor (h last (by simp))
  | cons part parts =>
    have hand := Derives.and (part :: parts ++ [last]) (by simp) h
    cases parts <;> simpa [chain] using hand

/-- A chain of terms is a disjunction, however long it is. -/
theorem derives_chain_or
    (h : ∀ part ∈ parts ++ [last], Derives .conjunction levels part.1 part.2) :
    Derives .disjunction levels (joined .or (parts ++ [last]))
      (chain .or ((parts ++ [last]).map (·.2))) := by
  cases parts with
  | nil => simpa [chain] using Derives.term (h last (by simp))
  | cons part parts =>
    have hor := Derives.or (part :: parts ++ [last]) (by simp) h
    cases parts <;> simpa [chain] using hor

/-- Every `!` before an operand takes one level. -/
theorem derives_negate {kinds : List Token.Kind} {f : Formula}
    (h : Derives .negation levels kinds f) (count : Nat) :
    Derives .negation (levels + count) (List.replicate count .not ++ kinds) (negate count f) := by
  induction count with
  | zero => exact h
  | succ count ih => exact .not ih

/-! ### Groups -/

namespace Group

/-- The tokens read in a group that waits for an operand. -/
def Pending (levels : Nat) (group : Group) (kinds : List Token.Kind) : Prop :=
  ∃ terms factors : List (List Token.Kind × Formula),
    (∀ part ∈ terms, Derives .conjunction levels part.1 part.2) ∧
    (∀ part ∈ factors, Derives .negation levels part.1 part.2) ∧
    group.terms = (terms.map (·.2)).reverse ∧
    group.factors = (factors.map (·.2)).reverse ∧
    kinds = signed .or terms ++ signed .and factors ++ List.replicate group.nots .not

/-- The tokens read in a group whose last token ends an operand. -/
def Complete (levels : Nat) (group : Group) (kinds : List Token.Kind) : Prop :=
  ∃ (terms factors : List (List Token.Kind × Formula)) (last : List Token.Kind × Formula),
    (∀ part ∈ terms, Derives .conjunction levels part.1 part.2) ∧
    (∀ part ∈ factors ++ [last], Derives .negation levels part.1 part.2) ∧
    group.terms = (terms.map (·.2)).reverse ∧
    group.factors = ((factors ++ [last]).map (·.2)).reverse ∧
    group.nots = 0 ∧
    kinds = signed .or terms ++ joined .and (factors ++ [last])

variable {group : Group} {kinds : List Token.Kind}

theorem pending_empty (levels : Nat) : empty.Pending levels [] :=
  ⟨[], [], by simp, by simp, rfl, rfl, rfl⟩

theorem Pending.addNot (h : group.Pending levels kinds) :
    group.addNot.Pending levels (kinds ++ [.not]) := by
  obtain ⟨terms, factors, hterms, hfactors, ht, hf, rfl⟩ := h
  refine ⟨terms, factors, hterms, hfactors, ht, hf, ?_⟩
  simp only [Group.addNot, List.replicate_succ', List.append_assoc]

/-- An operand takes the levels that the `!`s before it leave. -/
theorem Pending.addOperand {read : List Token.Kind} {f : Formula}
    (h : group.Pending (levels + group.nots) kinds) (hf : Derives .primary levels read f) :
    (group.addOperand f).Complete (levels + group.nots) (kinds ++ read) := by
  obtain ⟨terms, factors, hterms, hfactors, ht, hfs, rfl⟩ := h
  have hlast := derives_negate (.primary hf) group.nots
  refine ⟨terms, factors, (List.replicate group.nots .not ++ read, negate group.nots f),
    hterms, List.forall_mem_append.2 ⟨hfactors, List.forall_mem_singleton.2 hlast⟩, ht, ?_, rfl, ?_⟩
  · simp [Group.addOperand, hfs]
  · rw [joined_concat]
    simp [signed]

theorem Complete.nots_eq_zero (h : group.Complete levels kinds) : group.nots = 0 := by
  obtain ⟨_, _, _, _, _, _, _, hnots, _⟩ := h
  exact hnots

theorem Complete.and (h : group.Complete levels kinds) :
    group.Pending levels (kinds ++ [.and]) := by
  obtain ⟨terms, factors, last, hterms, hfactors, ht, hfs, hnots, rfl⟩ := h
  refine ⟨terms, factors ++ [last], hterms, hfactors, ht, hfs, ?_⟩
  rw [signed_concat, hnots]
  simp

theorem Complete.derives_term (h : group.Complete levels kinds) :
    ∃ terms : List (List Token.Kind × Formula), ∃ read,
      (∀ part ∈ terms, Derives .conjunction levels part.1 part.2) ∧
      group.terms = (terms.map (·.2)).reverse ∧
      Derives .conjunction levels read group.term ∧ kinds = signed .or terms ++ read := by
  obtain ⟨terms, factors, last, hterms, hfactors, ht, hfs, -, rfl⟩ := h
  refine ⟨terms, _, hterms, ht, ?_, rfl⟩
  rw [term, hfs, List.reverse_reverse]
  exact derives_chain_and hfactors

theorem Complete.endTerm (h : group.Complete levels kinds) :
    group.endTerm.Pending levels (kinds ++ [.or]) := by
  have hnots := h.nots_eq_zero
  obtain ⟨terms, read, hterms, ht, hread, rfl⟩ := h.derives_term
  refine ⟨terms ++ [(read, group.term)], [],
    List.forall_mem_append.2 ⟨hterms, List.forall_mem_singleton.2 hread⟩, by simp, ?_, rfl, ?_⟩
  · simp [Group.endTerm, ht]
  · simp [Group.endTerm, hnots, signed]

theorem Complete.derives_formula (h : group.Complete levels kinds) :
    Derives .disjunction levels kinds group.formula := by
  obtain ⟨terms, read, hterms, ht, hread, rfl⟩ := h.derives_term
  have hparts : ∀ part ∈ terms ++ [(read, group.term)],
      Derives .conjunction levels part.1 part.2 :=
    List.forall_mem_append.2 ⟨hterms, List.forall_mem_singleton.2 hread⟩
  have hformula : group.formula =
      chain .or ((terms ++ [(read, group.term)]).map (·.2)) := by
    simp [formula, ht]
  rw [hformula, show signed .or terms ++ read = joined .or (terms ++ [(read, group.term)]) by
    rw [joined_concat, signed]]
  exact derives_chain_or hparts

end Group

/-! ### States -/

/-- The groups around the innermost one have read the tokens, the parenthesis of the innermost one
included, and leave so many of the levels. -/
inductive Opened (limit : Nat) : List Group → List Token.Kind → (levels : Nat) → Prop where
  /-- No parenthesis is open. -/
  | nil : Opened limit [] [] limit
  /-- One more parenthesis, behind the `!`s of its group. -/
  | cons {outer : List Group} {group : Group} {before kinds : List Token.Kind} {levels : Nat} :
    Opened limit outer before (levels + 1 + group.nots) →
      group.Pending (levels + 1 + group.nots) kinds →
      Opened limit (group :: outer) (before ++ (kinds ++ [.openParen])) levels

theorem Opened.levels_le {limit : Nat} {outer : List Group} {kinds : List Token.Kind}
    (h : Opened limit outer kinds levels) : levels ≤ limit := by
  induction h with
  | nil => exact Nat.le_refl _
  | cons _ _ ih => omega

namespace State

/-- What a group has read in a phase. -/
def GroupReads (levels : Nat) : Phase → Group → List Token.Kind → Prop
  | .operand, group, kinds => group.Pending levels kinds
  | .operator, group, kinds => group.Complete levels kinds

/-- The state is a record of the tokens read. -/
structure Records (limit : Nat) (state : State) (kinds : List Token.Kind) : Prop where
  /-- The tokens fall into those around the innermost group and those of the group. -/
  read : ∃ levels before inside,
    Opened limit state.outer before (levels + state.group.nots) ∧
    GroupReads (levels + state.group.nots) state.phase state.group inside ∧
    kinds = before ++ inside ∧
    state.depth + levels = limit

variable {limit : Nat}

theorem records_start (limit : Nat) : (start 0).Records limit [] :=
  ⟨limit, [], [], .nil, Group.pending_empty limit, rfl, Nat.zero_add limit⟩

/-- An operand ends the wait of the innermost group. -/
theorem records_addOperand (phase : Phase) {group : Group} {outer : List Group}
    (depth : Nat) {before inside read : List Token.Kind} {f : Formula}
    (houter : Opened limit outer before (levels + group.nots))
    (hgroup : group.Pending (levels + group.nots) inside)
    (hdepth : depth + levels = limit) (hf : Derives .primary levels read f) :
    (addOperand ⟨phase, group, outer, depth⟩ f).Records limit (before ++ (inside ++ read)) := by
  have hle := houter.levels_le
  refine ⟨levels + group.nots, before, inside ++ read, houter, hgroup.addOperand hf, rfl, ?_⟩
  simp only [addOperand]
  omega

/-- Reading a token keeps the record. -/
theorem Records.shift {state next : State} {kind : Token.Kind} {kinds : List Token.Kind}
    (h : state.Records limit kinds) (hshift : Shift limit state kind next) :
    next.Records limit (kinds ++ [kind]) := by
  obtain ⟨levels, before, inside, houter, hgroup, rfl, hdepth⟩ := h
  cases hshift with
  | identifier group outer depth name =>
    rw [List.append_assoc]
    exact records_addOperand .operand depth houter hgroup hdepth (.identifier name)
  | not group outer depth hlt =>
    have hdepth : depth + levels = limit := hdepth
    obtain ⟨levels, rfl⟩ : ∃ n, levels = n + 1 := ⟨levels - 1, by omega⟩
    have hnots : levels + 1 + group.nots = levels + group.addNot.nots := by
      simp only [Group.addNot]
      omega
    have houter : Opened limit outer before (levels + 1 + group.nots) := houter
    have hgroup := Group.Pending.addNot hgroup
    rw [hnots] at houter
    exact ⟨levels, before, inside ++ [Token.Kind.not], houter, hnots ▸ hgroup,
      List.append_assoc .., by simp only; omega⟩
  | openParen group outer depth hlt =>
    have hdepth : depth + levels = limit := hdepth
    obtain ⟨levels, rfl⟩ : ∃ n, levels = n + 1 := ⟨levels - 1, by omega⟩
    exact ⟨levels, before ++ (inside ++ [Token.Kind.openParen]), [], .cons houter hgroup,
      Group.pending_empty _, by simp, by simp only; omega⟩
  | and group outer depth =>
    exact ⟨levels, before, inside ++ [Token.Kind.and], houter, Group.Complete.and hgroup,
      List.append_assoc .., hdepth⟩
  | or group outer depth =>
    exact ⟨levels, before, inside ++ [Token.Kind.or], houter, Group.Complete.endTerm hgroup,
      List.append_assoc .., hdepth⟩
  | closeParen group around outer depth =>
    -- The innermost group is done: with its parentheses it is an operand of the one around it.
    have hdepth : depth + levels = limit := hdepth
    have houter : Opened limit (around :: outer) before (levels + group.nots) := houter
    have hgroup : group.Complete (levels + group.nots) inside := hgroup
    rw [hgroup.nots_eq_zero, Nat.add_zero] at houter hgroup
    cases houter with
    | @cons _ _ before read _ houter haround =>
      have hle := houter.levels_le
      have hoperand := records_addOperand .operator (depth - 1) houter haround (by omega)
        (.parens hgroup.derives_formula)
      simpa using hoperand

/-- Reading any number of tokens keeps the record. -/
theorem Records.reads {state last : State} {kinds more : List Token.Kind}
    (h : state.Records limit kinds) (hreads : state.reads limit more = some last) :
    last.Records limit (kinds ++ more) := by
  induction more generalizing state kinds with
  | nil =>
    rw [reads_nil, Option.some.injEq] at hreads
    rwa [← hreads, List.append_nil]
  | cons kind more ih =>
    obtain ⟨next, hshift, hrest⟩ := reads_cons_eq_some_iff.1 hreads
    simpa using ih (h.shift hshift) hrest

/-- Where the machine can finish, the tokens it has read are a disjunction. -/
theorem Records.derives {state : State} {kinds : List Token.Kind} {f : Formula}
    (h : state.Records limit kinds) (hfinish : state.finish = .ok f) :
    Derives .disjunction limit kinds f := by
  obtain ⟨levels, before, inside, houter, hgroup, rfl, hdepth⟩ := h
  obtain ⟨phase, group, outer, depth⟩ := state
  cases phase with
  | operand => cases hfinish
  | operator =>
    cases outer with
    | cons around outer => cases hfinish
    | nil =>
      cases hfinish
      generalize hlevels : levels + group.nots = left at houter hgroup
      cases houter
      exact Group.Complete.derives_formula hgroup

end State

/-- Tokens that the machine reads to the end are a disjunction within the limit. -/
theorem derives_of_reads {limit : Nat} {kinds : List Token.Kind} {last : State} {f : Formula}
    (hreads : (State.start 0).reads limit kinds = some last) (hfinish : last.finish = .ok f) :
    Derives .disjunction limit kinds f := by
  have hlast := (State.records_start limit).reads hreads
  exact hlast.derives hfinish

end Schematic.Parser
