import Schematic.Proofs.Parser.Grammar
import Schematic.Proofs.Parser.Machine

/-!
# The machine reads every phrase

A derivation tells what the machine does with the tokens of a phrase, wherever it stands: if the
levels of the phrase are still left, it reads all of them and then holds the formula of the phrase
as an operand, as a finished term or as a finished group (`reads_of_derives`). The induction is on
the derivation; the operands of a chain are read one after the other.
-/

namespace Schematic.Parser

open Grammar

/-! ### Operands -/

theorem negate_not (count : Nat) (f : Formula) : negate count (.not f) = .not (negate count f) := by
  induction count with
  | zero => rfl
  | succ count ih => rw [negate, ih, negate]

namespace State

variable {limit levels : Nat}

/-- What the machine does with the tokens of an operand: it holds the operand afterwards. -/
def ReadsOperand (limit levels : Nat) (kinds : List Token.Kind) (f : Formula) : Prop :=
  ∀ (group : Group) (outer : List Group) (depth : Nat), depth + levels ≤ limit →
    (⟨.operand, group, outer, depth⟩ : State).reads limit kinds =
      some ((⟨.operand, group, outer, depth⟩ : State).addOperand f)

/-- What the machine does with the tokens of a term, where a term may start. -/
def ReadsTerm (limit levels : Nat) (kinds : List Token.Kind) (f : Formula) : Prop :=
  ∀ (terms : List Formula) (outer : List Group) (depth : Nat), depth + levels ≤ limit →
    ∃ factors, chain .and factors.reverse = f ∧
      (⟨.operand, ⟨terms, [], 0⟩, outer, depth⟩ : State).reads limit kinds =
        some ⟨.operator, ⟨terms, factors, 0⟩, outer, depth⟩

/-- What the machine does with the tokens of a group, where a group may start. -/
def ReadsGroup (limit levels : Nat) (kinds : List Token.Kind) (f : Formula) : Prop :=
  ∀ (outer : List Group) (depth : Nat), depth + levels ≤ limit →
    ∃ group : Group, group.formula = f ∧
      (⟨.operand, .empty, outer, depth⟩ : State).reads limit kinds =
        some ⟨.operator, group, outer, depth⟩

theorem readsOperand_identifier (name : Char) :
    ReadsOperand limit levels [.identifier name] (.var name.toUpper) := by
  intro group outer depth _
  rw [reads_cons_of_shift (.identifier group outer depth name), reads_nil]

theorem ReadsOperand.not {kinds : List Token.Kind} {f : Formula}
    (h : ReadsOperand limit levels kinds f) :
    ReadsOperand limit (levels + 1) (.not :: kinds) (.not f) := by
  intro group outer depth hdepth
  rw [reads_cons_of_shift (.not group outer depth (by omega)),
    h group.addNot outer (depth + 1) (by omega)]
  simp [addOperand, Group.addOperand, Group.addNot, negate, negate_not]

theorem ReadsGroup.parens {kinds : List Token.Kind} {f : Formula}
    (h : ReadsGroup limit levels kinds f) :
    ReadsOperand limit (levels + 1) (.openParen :: (kinds ++ [.closeParen])) f := by
  intro group outer depth hdepth
  obtain ⟨inner, rfl, hreads⟩ := h (group :: outer) (depth + 1) (by omega)
  rw [reads_cons_of_shift (.openParen group outer depth (by omega)), reads_append, hreads,
    Option.bind_some, reads_cons_of_shift (.closeParen inner group outer (depth + 1)), reads_nil]
  rfl

/-! ### Chains -/

/-- The machine reads factors one after the other, each on top of those before. -/
theorem reads_factors {parts : List (List Token.Kind × Formula)}
    (h : ∀ part ∈ parts, ReadsOperand limit levels part.1 part.2) (hne : parts ≠ [])
    (terms factors : List Formula) (outer : List Group) {depth : Nat}
    (hdepth : depth + levels ≤ limit) :
    (⟨.operand, ⟨terms, factors, 0⟩, outer, depth⟩ : State).reads limit (joined .and parts) =
      some ⟨.operator, ⟨terms, (parts.map (·.2)).reverse ++ factors, 0⟩, outer, depth⟩ := by
  induction parts generalizing factors with
  | nil => exact absurd rfl hne
  | cons part parts ih =>
    have hpart := h part (by simp) ⟨terms, factors, 0⟩ outer depth hdepth
    cases parts with
    | nil => simpa [addOperand, Group.addOperand, negate] using hpart
    | cons next parts =>
      have hrest := ih (fun other hother => h other (List.mem_cons_of_mem _ hother))
        (List.cons_ne_nil next parts) (part.2 :: factors)
      rw [joined_cons_cons, reads_append, hpart, Option.bind_some]
      simp only [addOperand, Group.addOperand, negate, Nat.sub_zero]
      rw [reads_cons_of_shift (.and _ outer depth), hrest]
      simp

/-- The machine reads terms one after the other, each on top of those before. -/
theorem reads_terms {parts : List (List Token.Kind × Formula)}
    (h : ∀ part ∈ parts, ReadsTerm limit levels part.1 part.2) (hne : parts ≠ [])
    (terms : List Formula) (outer : List Group) {depth : Nat} (hdepth : depth + levels ≤ limit) :
    ∃ group : Group, group.formula = chain .or (terms.reverse ++ parts.map (·.2)) ∧
      (⟨.operand, ⟨terms, [], 0⟩, outer, depth⟩ : State).reads limit (joined .or parts) =
        some ⟨.operator, group, outer, depth⟩ := by
  induction parts generalizing terms with
  | nil => exact absurd rfl hne
  | cons part parts ih =>
    obtain ⟨factors, hterm, hpart⟩ := h part (by simp) terms outer depth hdepth
    cases parts with
    | nil =>
      refine ⟨_, ?_, by simpa using hpart⟩
      simp [Group.formula, Group.term, hterm]
    | cons next parts =>
      obtain ⟨group, hgroup, hrest⟩ := ih
        (fun other hother => h other (List.mem_cons_of_mem _ hother))
        (List.cons_ne_nil next parts) (part.2 :: terms)
      refine ⟨group, by simpa using hgroup, ?_⟩
      rw [joined_cons_cons, reads_append, hpart, Option.bind_some,
        reads_cons_of_shift (.or _ outer depth), Group.endTerm, Group.term, hterm, hrest]

theorem chain_of_two_le (build : List Formula → Formula) {operands : List Formula}
    (h : 2 ≤ operands.length) : chain build operands = build operands := by
  match operands with
  | [] | _ :: _ :: _ => rfl
  | [_] => simp at h

theorem ne_nil_of_two_le {α : Type} {items : List α} (h : 2 ≤ items.length) : items ≠ [] :=
  List.ne_nil_of_length_pos (by omega)

/-! ### Phrases -/

/-- What the machine does with the tokens of a phrase, for each kind of phrase. -/
def ReadsPhrase (limit : Nat) :
    Phrase → (levels : Nat) → List Token.Kind → Formula → Prop
  | .primary | .negation => ReadsOperand limit
  | .conjunction => ReadsTerm limit
  | .disjunction => ReadsGroup limit

theorem reads_of_derives {phrase : Phrase} {kinds : List Token.Kind} {f : Formula}
    (limit : Nat) (h : Derives phrase levels kinds f) :
    ReadsPhrase limit phrase levels kinds f := by
  induction h with
  | identifier name => exact readsOperand_identifier name
  | parens _ ih => exact ReadsGroup.parens ih
  | primary _ ih => exact ih
  | not _ ih => exact ReadsOperand.not ih
  | factor _ ih =>
    intro terms outer depth hdepth
    refine ⟨[_], rfl, (ih ⟨terms, [], 0⟩ outer depth hdepth).trans ?_⟩
    simp [addOperand, Group.addOperand, negate]
  | and parts hlen _ ih =>
    intro terms outer depth hdepth
    refine ⟨(parts.map (·.2)).reverse, ?_, ?_⟩
    · rw [List.reverse_reverse, chain_of_two_le _ (by simpa using hlen)]
    · simpa using reads_factors ih (ne_nil_of_two_le hlen) terms [] outer hdepth
  | term _ ih =>
    intro outer depth hdepth
    obtain ⟨factors, hterm, hreads⟩ := ih [] outer depth hdepth
    exact ⟨⟨[], factors, 0⟩, hterm, hreads⟩
  | or parts hlen _ ih =>
    intro outer depth hdepth
    obtain ⟨group, hgroup, hreads⟩ := reads_terms ih (ne_nil_of_two_le hlen) [] outer hdepth
    refine ⟨group, ?_, hreads⟩
    rw [hgroup, List.reverse_nil, List.nil_append, chain_of_two_le _ (by simpa using hlen)]

end State

/-- The machine reads a disjunction within the limit to the end and holds its formula there. -/
theorem reads_start_of_derives {limit : Nat} {kinds : List Token.Kind} {f : Formula}
    (h : Derives .disjunction limit kinds f) :
    ∃ last, (State.start 0).reads limit kinds = some last ∧ last.finish = .ok f := by
  obtain ⟨group, rfl, hreads⟩ := State.reads_of_derives limit h [] 0 (by omega)
  exact ⟨_, hreads, rfl⟩

end Schematic.Parser
