import Schematic.Proofs.Parser.Faults
import Schematic.Proofs.Parser.Soundness

/-!
# What the limit of nesting does

Every `!` and every opening parenthesis opens a construct, which is complete when a whole negation
of the grammar has been read from there on. The constructs still open behind some tokens are thus
counted without a parser (`openConstructs`), and the machine's depth is their number
(`State.Records.openConstructs_eq`): the complete phrases of its record leave none open, and the
`!`s and parentheses between them all are.

Main result: with a lower limit a parser gives the same result, or it reports the first token that
opens a construct inside as many others as the limit allows (`lower_limit_only_overflows`).
-/

namespace Schematic.Parser

open Grammar

/-! ### Open constructs -/

/-- The token opens a construct. -/
def Opens (kind : Token.Kind) : Prop := kind = .not ∨ kind = .openParen

/-- The tokens do not start with a whole negation. -/
def NoOperand (kinds : List Token.Kind) : Prop :=
  ∀ (construct : List Token.Kind) (levels : Nat) (f : Formula),
    construct <+: kinds → ¬ Derives .negation levels construct f

/-- The first token opens a construct that is not complete. -/
def Unclosed (kinds : List Token.Kind) : Prop :=
  (∃ kind ∈ kinds.head?, Opens kind) ∧ NoOperand kinds

open Classical in
/-- How many constructs are open behind the tokens: those that none of them completes. -/
noncomputable def openConstructs : List Token.Kind → Nat
  | [] => 0
  | kind :: kinds => openConstructs kinds + if Unclosed (kind :: kinds) then 1 else 0

variable {kind : Token.Kind} {kinds more : List Token.Kind}

theorem openConstructs_cons_of_unclosed (h : Unclosed (kind :: kinds)) :
    openConstructs (kind :: kinds) = openConstructs kinds + 1 := by
  rw [openConstructs, if_pos h]

theorem openConstructs_cons_of_closed (h : ¬ Unclosed (kind :: kinds)) :
    openConstructs (kind :: kinds) = openConstructs kinds := by
  rw [openConstructs, if_neg h, Nat.add_zero]

/-- A token that opens no construct leaves those open that were. -/
theorem openConstructs_cons_of_not_opens (h : ¬ Opens kind) (kinds : List Token.Kind) :
    openConstructs (kind :: kinds) = openConstructs kinds := by
  apply openConstructs_cons_of_closed
  rintro ⟨⟨other, hother, hopens⟩, -⟩
  cases hother
  exact h hopens

/-! ### What complete phrases leave -/

section Skipped

variable {β : Type} {F : List Token.Kind → β} {sign : Token.Kind}
  {parts : List (List Token.Kind × Formula)}

/-- Tokens that make no difference in front of others. -/
def Skipped (F : List Token.Kind → β) (kinds : List Token.Kind) : Prop :=
  ∀ more, F (kinds ++ more) = F more

theorem Skipped.append (h : Skipped F kinds) (hmore : Skipped F more) :
    Skipped F (kinds ++ more) := by
  intro rest
  rw [List.append_assoc, h, hmore]

theorem skipped_signed (hsign : Skipped F [sign]) (h : ∀ part ∈ parts, Skipped F part.1) :
    Skipped F (signed sign parts) := by
  induction parts with
  | nil => exact fun more => rfl
  | cons part parts ih =>
    obtain ⟨hpart, hparts⟩ := List.forall_mem_cons.1 h
    exact (hpart.append hsign).append (ih hparts)

theorem skipped_joined (hsign : Skipped F [sign]) (h : ∀ part ∈ parts, Skipped F part.1) :
    Skipped F (joined sign parts) := by
  rcases List.eq_nil_or_concat parts with rfl | ⟨init, last, rfl⟩
  · exact fun more => rfl
  · rw [List.concat_eq_append] at h ⊢
    obtain ⟨hinit, hlast⟩ := List.forall_mem_append.1 h
    rw [joined_concat]
    exact (skipped_signed hsign hinit).append (hlast last (List.mem_singleton.2 rfl))

/-- A phrase makes no difference if its variables and signs make none, and a construct around what
makes none makes none. -/
theorem skipped_of_derives (hidentifier : ∀ name, Skipped F [.identifier name])
    (hand : Skipped F [.and]) (hor : Skipped F [.or])
    (hnot : ∀ {levels kinds f}, Derives .negation levels kinds f → Skipped F kinds →
      Skipped F (.not :: kinds))
    (hparens : ∀ {levels kinds f}, Derives .disjunction levels kinds f → Skipped F kinds →
      Skipped F (.openParen :: (kinds ++ [.closeParen])))
    {phrase : Phrase} {levels : Nat} {f : Formula} (h : Derives phrase levels kinds f) :
    Skipped F kinds := by
  induction h with
  | identifier name => exact hidentifier name
  | parens hinner ih => exact hparens hinner ih
  | primary _ ih => exact ih
  | not hinner ih => exact hnot hinner ih
  | factor _ ih => exact ih
  | and parts _ _ ih => exact skipped_joined hand ih
  | term _ ih => exact ih
  | or parts _ _ ih => exact skipped_joined hor ih

end Skipped

theorem not_unclosed_of_prefix {construct : List Token.Kind} {levels : Nat} {f : Formula}
    (h : Derives .negation levels construct f) (hstarts : construct <+: kinds) :
    ¬ Unclosed kinds :=
  fun hunclosed => hunclosed.2 construct levels f hstarts h

theorem skipped_openConstructs_singleton (h : ¬ Opens kind) : Skipped openConstructs [kind] :=
  fun more => openConstructs_cons_of_not_opens h more

/-- A complete phrase leaves no construct open. -/
theorem skipped_openConstructs {phrase : Phrase} {levels : Nat} {f : Formula}
    (h : Derives phrase levels kinds f) : Skipped openConstructs kinds := by
  refine skipped_of_derives (fun name => skipped_openConstructs_singleton (by simp [Opens]))
    (skipped_openConstructs_singleton (by simp [Opens]))
    (skipped_openConstructs_singleton (by simp [Opens])) ?_ ?_ h
  · intro levels kinds f hinner hskipped more
    have hclosed := not_unclosed_of_prefix hinner.not (List.prefix_append _ more)
    rw [List.cons_append] at hclosed
    rw [List.cons_append, openConstructs_cons_of_closed hclosed, hskipped]
  · intro levels kinds f hinner hskipped more
    have hclosed := not_unclosed_of_prefix (.primary hinner.parens) (List.prefix_append _ more)
    rw [List.cons_append] at hclosed
    rw [List.cons_append, openConstructs_cons_of_closed hclosed, List.append_assoc, hskipped]
    exact openConstructs_cons_of_not_opens (by simp [Opens]) more

/-! ### Parentheses -/

/-- How many parentheses are open behind the tokens when so many were before, unless one is closed
that is not open. -/
def parensAfter : List Token.Kind → Nat → Option Nat
  | [], count => some count
  | .openParen :: kinds, count => parensAfter kinds (count + 1)
  | .closeParen :: _, 0 => none
  | .closeParen :: kinds, count + 1 => parensAfter kinds count
  | _ :: kinds, count => parensAfter kinds count

theorem parensAfter_append (kinds more : List Token.Kind) (count : Nat) :
    parensAfter (kinds ++ more) count = (parensAfter kinds count).bind (parensAfter more) := by
  induction kinds generalizing count with
  | nil => rfl
  | cons kind kinds ih =>
    cases kind with
    | closeParen =>
      cases count with
      | zero => rfl
      | succ count => exact ih count
    | openParen => exact ih (count + 1)
    | identifier | not | and | or | endOfInput => exact ih count

/-- With one more parenthesis open before, one more is open behind. -/
theorem parensAfter_succ {count after : Nat} (h : parensAfter kinds count = some after) :
    parensAfter kinds (count + 1) = some (after + 1) := by
  induction kinds generalizing count with
  | nil =>
    cases h
    rfl
  | cons kind kinds ih =>
    cases kind with
    | closeParen =>
      cases count with
      | zero => cases h
      | succ count => exact ih h
    | openParen | identifier | not | and | or | endOfInput => exact ih h

/-- A complete phrase closes the parentheses it opens, and no other. -/
theorem skipped_parensAfter {phrase : Phrase} {levels : Nat} {f : Formula}
    (h : Derives phrase levels kinds f) : Skipped parensAfter kinds := by
  refine skipped_of_derives (fun name more => rfl) (fun more => rfl) (fun more => rfl)
    (fun _ hskipped more => hskipped more) (fun _ hskipped more => ?_) h
  funext count
  rw [List.cons_append, List.append_assoc, parensAfter, hskipped]
  rfl

/-- Behind a parenthesis that none of the tokens closes, no negation ends. -/
theorem noOperand_openParen (h : (parensAfter kinds 0).isSome = true) :
    NoOperand (.openParen :: kinds) := by
  rintro construct levels f ⟨rest, hrest⟩ hderives
  cases construct with
  | nil => cases hderives with
    | primary hderives => cases hderives
  | cons kind inside =>
    rw [List.cons_append, List.cons.injEq] at hrest
    obtain ⟨rfl, rfl⟩ := hrest
    have hclosed : parensAfter inside 1 = some 0 := by
      have hskipped := congrFun (skipped_parensAfter hderives []) 0
      rwa [List.append_nil] at hskipped
    rw [parensAfter_append, Option.isSome_bind] at h
    cases hinside : parensAfter inside 0 with
    | none =>
      rw [hinside] at h
      cases h
    | some count =>
      rw [parensAfter_succ hinside] at hclosed
      cases hclosed

/-- Nor behind a `!` that has no operand yet. -/
theorem noOperand_not (h : NoOperand kinds) : NoOperand (.not :: kinds) := by
  rintro construct levels f ⟨rest, hrest⟩ hderives
  cases hderives with
  | primary hprimary => cases hprimary <;> cases hrest
  | not hoperand => exact h _ _ _ ⟨rest, (List.cons.inj hrest).2⟩ hoperand

theorem noOperand_nil : NoOperand [] := by
  intro construct levels f hstarts hderives
  rw [List.prefix_nil.1 hstarts] at hderives
  cases hderives with
  | primary hprimary => cases hprimary

/-! ### The machine's record -/

/-- Every `!` that waits for its operand is open. -/
theorem openConstructs_nots (h : NoOperand more) (count : Nat) :
    NoOperand (List.replicate count .not ++ more) ∧
      openConstructs (List.replicate count .not ++ more) = openConstructs more + count := by
  induction count with
  | zero => exact ⟨h, rfl⟩
  | succ count ih =>
    obtain ⟨hno, hcount⟩ := ih
    have hnot := noOperand_not hno
    refine ⟨hnot, ?_⟩
    rw [List.replicate_succ, List.cons_append,
      openConstructs_cons_of_unclosed ⟨⟨_, rfl, .inl rfl⟩, hnot⟩, hcount]
    rfl

theorem openConstructs_openParen (h : (parensAfter kinds 0).isSome = true) :
    openConstructs (.openParen :: kinds) = openConstructs kinds + 1 :=
  openConstructs_cons_of_unclosed ⟨⟨_, rfl, .inr rfl⟩, noOperand_openParen h⟩

variable {levels limit : Nat} {group : Group}

namespace Group

/-- In a group that waits for an operand, the `!`s before it are open. -/
theorem Pending.openConstructs_eq (h : group.Pending levels kinds) (hmore : NoOperand more) :
    openConstructs (kinds ++ more) = openConstructs more + group.nots := by
  obtain ⟨terms, factors, hterms, hfactors, -, -, rfl⟩ := h
  have hor : Skipped openConstructs (signed .or terms) :=
    skipped_signed (skipped_openConstructs_singleton (by simp [Opens]))
      fun part hpart => skipped_openConstructs (hterms part hpart)
  have hand : Skipped openConstructs (signed .and factors) :=
    skipped_signed (skipped_openConstructs_singleton (by simp [Opens]))
      fun part hpart => skipped_openConstructs (hfactors part hpart)
  rw [List.append_assoc, hor.append hand, (openConstructs_nots hmore _).2]

theorem Pending.skipped_parensAfter (h : group.Pending levels kinds) :
    Skipped parensAfter kinds := by
  obtain ⟨terms, factors, hterms, hfactors, -, -, rfl⟩ := h
  have hor : Skipped parensAfter (signed .or terms) :=
    skipped_signed (fun _ => rfl) fun part hpart => Parser.skipped_parensAfter (hterms part hpart)
  have hand : Skipped parensAfter (signed .and factors) :=
    skipped_signed (fun _ => rfl) fun part hpart => Parser.skipped_parensAfter (hfactors part hpart)
  have hnots : ∀ count, Skipped parensAfter (List.replicate count .not) := by
    intro count
    induction count with
    | zero => exact fun _ => rfl
    | succ count ih => exact ih
  exact (hor.append hand).append (hnots group.nots)

end Group

/-- The groups around the innermost one leave open their parentheses and the `!`s before them, one
for every level that they take. -/
theorem Opened.openConstructs_eq {outer : List Group} (h : Opened limit outer kinds levels)
    (hmore : (parensAfter more 0).isSome = true) :
    openConstructs (kinds ++ more) + levels = openConstructs more + limit := by
  induction h generalizing more with
  | nil => rfl
  | @cons outer group before kinds levels _ hgroup ih =>
    have hparens : (parensAfter (kinds ++ .openParen :: more) 0).isSome = true := by
      obtain ⟨count, hcount⟩ := Option.isSome_iff_exists.1 hmore
      rw [hgroup.skipped_parensAfter, parensAfter, parensAfter_succ hcount]
      rfl
    have hinside := hgroup.openConstructs_eq (noOperand_openParen hmore)
    rw [openConstructs_openParen hmore] at hinside
    have houter := ih hparens
    rw [hinside] at houter
    rw [List.append_assoc, List.append_assoc, List.singleton_append]
    omega

namespace State

variable {state last : State}

/-- In the innermost group, the `!`s that wait for an operand are open. -/
theorem GroupReads.openConstructs_eq {phase : Phase} (h : GroupReads levels phase group kinds) :
    openConstructs kinds = group.nots ∧ (parensAfter kinds 0).isSome = true := by
  rw [← List.append_nil kinds]
  cases phase with
  | operand =>
    have hgroup : group.Pending levels kinds := h
    rw [hgroup.openConstructs_eq noOperand_nil, hgroup.skipped_parensAfter]
    exact ⟨Nat.zero_add _, rfl⟩
  | operator =>
    have hgroup : group.Complete levels kinds := h
    have hderives := hgroup.derives_formula
    rw [skipped_openConstructs hderives, skipped_parensAfter hderives, hgroup.nots_eq_zero]
    exact ⟨rfl, rfl⟩

/-- **The depth is the number of open constructs.** -/
theorem Records.openConstructs_eq (h : state.Records limit kinds) :
    openConstructs kinds = state.depth := by
  obtain ⟨levels, before, inside, houter, hgroup, rfl, hdepth⟩ := h
  obtain ⟨phase, group, outer, depth⟩ := state
  obtain ⟨hopen, hparens⟩ := GroupReads.openConstructs_eq hgroup
  have hcount := houter.openConstructs_eq hparens
  simp only at hopen hcount hdepth ⊢
  omega

/-- Behind tokens that the machine reads, its depth is the number of open constructs, and it is
within the limit. -/
theorem openConstructs_of_reads (h : (start 0).reads limit kinds = some last) :
    openConstructs kinds = last.depth ∧ last.depth ≤ limit := by
  have hrecords : last.Records limit ([] ++ kinds) := (records_start limit).reads h
  obtain ⟨levels, -, -, -, -, -, hdepth⟩ := hrecords.read
  exact ⟨hrecords.openConstructs_eq, Nat.le.intro hdepth⟩

/-- An overflow comes at the limit. -/
theorem le_depth_of_step_eq_overflow (h : state.step limit kind = .overflow) :
    limit ≤ state.depth := by
  obtain ⟨hphase, hkind⟩ := kind_of_step_eq_overflow h
  obtain ⟨phase, group, outer, depth⟩ := state
  cases hphase
  rcases hkind with rfl | rfl
  all_goals
    simp only [step.eq_def, descend] at h
    split at h
    · assumption
    · cases h

/-- A construct is opened below the limit. -/
theorem Shift.depth_lt {next : State} (h : Shift limit state kind next) (hkind : Opens kind) :
    state.depth < limit := by
  rcases hkind with rfl | rfl <;> cases h <;> assumption

end State

/-! ### The token that is reported -/

/-- The token at the index is the first one that opens a construct inside as many open ones. -/
structure FirstInside (count : Nat) (tokens : List Token) (index : Nat) (token : Token) :
    Prop where
  /-- It stands there. -/
  here : tokens[index]? = some token
  /-- It opens a construct. -/
  opens : Opens token.kind
  /-- Behind the tokens before it, so many constructs are open. -/
  inside : openConstructs ((tokens.take index).map (·.kind)) = count
  /-- An earlier token that opens a construct does so inside fewer. -/
  first {i : Nat} {other : Token} : i < index → tokens[i]? = some other → Opens other.kind →
    openConstructs ((tokens.take i).map (·.kind)) < count

/-- Before each token that the machine reads and that opens a construct, fewer constructs are open
than the limit allows. -/
theorem openConstructs_lt_of_reads {tokens : List Token} {last : State}
    (h : (State.start 0).reads limit (tokens.map (·.kind)) = some last) {i : Nat} {token : Token}
    (hi : tokens[i]? = some token) (hopens : Opens token.kind) :
    openConstructs ((tokens.take i).map (·.kind)) < limit := by
  obtain ⟨hlt, rfl⟩ := List.getElem?_eq_some_iff.1 hi
  rw [← List.take_append_drop i tokens, List.drop_eq_getElem_cons hlt, List.map_append,
    State.reads_append, Option.bind_eq_some_iff] at h
  obtain ⟨state, hstate, hrest⟩ := h
  obtain ⟨next, hshift, -⟩ := State.reads_cons_eq_some_iff.1 hrest
  rw [(State.openConstructs_of_reads hstate).1]
  exact hshift.depth_lt hopens

/-- What is reported for nesting too deep is the first token inside as many open constructs as the
limit allows. -/
theorem exists_firstInside_of_tooDeep {tokens : List Token} {position cap : Nat}
    (h : Formula.ofTokens tokens limit = .error (.tooDeep position cap)) :
    cap = limit ∧ ∃ index token, FirstInside limit tokens index token ∧
      position = token.position := by
  obtain ⟨before, after, last, rfl, -, hreads, hstops⟩ := exists_stops_of_run_eq_error h
  cases hstops with
  | overflow hstep =>
    have hopens := (State.kind_of_step_eq_overflow hstep).2
    obtain ⟨hopen, hle⟩ := State.openConstructs_of_reads hreads
    cases after with
    | nil => simp [nextKind] at hopens
    | cons token after =>
      refine ⟨rfl, before.length, token, ⟨by simp, hopens, ?_, fun hlt hi hother => ?_⟩, rfl⟩
      · rw [List.take_left, hopen]
        exact Nat.le_antisymm hle (State.le_depth_of_step_eq_overflow hstep)
      · rw [List.getElem?_append_left hlt] at hi
        rw [List.take_append_of_le_length (Nat.le_of_lt hlt)]
        exact openConstructs_lt_of_reads hreads hi hother

/-- The parser has reported nesting too deep. -/
def Overflows (result : Except Fault Formula) : Prop :=
  ∃ position cap, result = .error (.tooDeep position cap)

/-- **A lower limit only ever makes a parser overflow**: it reports the lower limit or gives the
same result as the higher one. Whenever it does overflow, it reports the first `!` or opening
parenthesis inside as many others, still open there, as the limit allows. -/
theorem lower_limit_only_overflows (tokens : List Token) {most : Nat} (hle : limit ≤ most) :
    ((∃ position, Formula.ofTokens tokens limit = .error (.tooDeep position limit)) ∨
      Formula.ofTokens tokens limit = Formula.ofTokens tokens most) ∧
    (Overflows (Formula.ofTokens tokens limit) →
      ∃ index token, FirstInside limit tokens index token ∧
        Formula.ofTokens tokens limit = .error (.tooDeep token.position limit)) := by
  refine ⟨ofTokens_of_le_limit hle tokens, ?_⟩
  rintro ⟨position, cap, hresult⟩
  obtain ⟨rfl, index, token, hfirst, rfl⟩ := exists_firstInside_of_tooDeep hresult
  exact ⟨index, token, hfirst, hresult⟩

/-- In `!A.(B+!C)` the first `!` is complete before the parenthesis, which the second is inside. -/
theorem lower_limit_only_overflows_inside :
    let tokens : List Token := [⟨.not, 0⟩, ⟨.identifier 'A', 1⟩, ⟨.and, 2⟩, ⟨.openParen, 3⟩,
      ⟨.identifier 'B', 4⟩, ⟨.or, 5⟩, ⟨.not, 6⟩, ⟨.identifier 'C', 7⟩, ⟨.closeParen, 8⟩,
      ⟨.endOfInput, 9⟩]
    1 ≤ 2 ∧
    Formula.ofTokens tokens 2 =
      .ok (.and [.not (.var 'A'), .or [.var 'B', .not (.var 'C')]]) ∧
    ∃ index token, FirstInside 1 tokens index token ∧
      Formula.ofTokens tokens 1 = .error (.tooDeep token.position 1) ∧ token.position = 6 := by
  intro tokens
  have hresult : Formula.ofTokens tokens 1 = .error (.tooDeep 6 1) := rfl
  obtain ⟨index, token, hfirst, hreported⟩ :=
    (lower_limit_only_overflows tokens (by decide : 1 ≤ 2)).2 ⟨6, 1, hresult⟩
  refine ⟨by decide, rfl, index, token, hfirst, hreported, ?_⟩
  rw [hresult] at hreported
  exact (Fault.tooDeep.inj (Except.error.inj hreported)).1.symm

end Schematic.Parser
