import Schematic.Proofs.Formula.Reading
import Schematic.Proofs.Formula.Unrolling
import Schematic.Proofs.Layout.Levels

/-!
# How high a formula can be that has been read

Only `!` and parentheses take a level of nesting, and between two of them a formula can grow by a
conjunction and a disjunction at most. So a negation is at most twice as high as it has levels, a
conjunction one step higher and a disjunction two (`Grammar.height_le_of_derives`). Putting one
formula in parentheses as a factor of a term of the next one reaches the bound (`Formula.tower`).

Main result: a formula that a parser finds is no higher than its limit allows, and some are as high,
so no recursion over a formula that has been read from a text nests deeper than 515 calls
(`Parser.height_bounded_by_limit`).
-/

namespace Schematic

namespace Grammar

/-! ### The bound -/

/-- The height that a phrase with so many levels can have at most. -/
def Phrase.maxHeight : Phrase → (levels : Nat) → Nat
  | disjunction, levels => 2 * levels + 2
  | conjunction, levels => 2 * levels + 1
  | negation, levels => 2 * levels
  | primary, levels => 2 * levels

/-- A gate is one step higher than the bound of its operands at most. -/
theorem height_le_of_operands {f : Formula} {bound : Nat}
    (h : ∀ operand ∈ f.operands, operand.height ≤ bound) : f.height ≤ bound + 1 := by
  rw [Formula.height_eq]
  split
  · exact Nat.zero_le _
  · rcases List.mem_cons.1 (Levels.highest_mem (f.operands.map Formula.height)) with hzero | hmem
    · omega
    · obtain ⟨operand, hoperand, hheight⟩ := List.mem_map.1 hmem
      have hle := h operand hoperand
      omega

/-- No phrase is higher than its levels allow. -/
theorem height_le_of_derives {phrase : Phrase} {levels : Nat} {kinds : List Token.Kind}
    {f : Formula} (h : Derives phrase levels kinds f) : f.height ≤ phrase.maxHeight levels := by
  induction h with
  | identifier name => exact Nat.zero_le _
  | parens _ ih => exact ih
  | primary _ ih => exact ih
  | @not levels kinds f _ ih =>
    have hoperand : ∀ operand ∈ (Formula.not f).operands, operand.height ≤ 2 * levels :=
      List.forall_mem_singleton.2 ih
    have hle := height_le_of_operands hoperand
    simp only [Phrase.maxHeight]
    omega
  | factor _ ih => exact Nat.le_succ_of_le ih
  | and parts _ _ ih => exact height_le_of_operands (List.forall_mem_map.2 ih)
  | term _ ih => exact Nat.le_succ_of_le ih
  | or parts _ _ ih => exact height_le_of_operands (List.forall_mem_map.2 ih)

end Grammar

/-! ### Formulas that reach it -/

namespace Formula

/-- A formula as a factor of a term, two steps higher. -/
def raised (f : Formula) : Formula := .or [.and [f, .var 'A'], .var 'A']

/-- A formula that nests so deep and is as high as it can be then. -/
def tower : (nesting : Nat) → Formula
  | 0 => raised (.var 'A')
  | nesting + 1 => raised (tower nesting)

theorem wellFormed_raised {f : Formula} (h : f.WellFormed) : f.raised.WellFormed := by
  have hvar : (Formula.var 'A').WellFormed := .var (by decide)
  have hterm : (Formula.and [f, .var 'A']).WellFormed :=
    .and (by simp) (List.forall_mem_cons.2 ⟨h, List.forall_mem_singleton.2 hvar⟩)
  exact .or (by simp) (List.forall_mem_cons.2 ⟨hterm, List.forall_mem_singleton.2 hvar⟩)

theorem height_raised (f : Formula) : f.raised.height = f.height + 2 := by
  simp only [raised, height, heights, Levels.highest, List.foldl_cons, List.foldl_nil]
  omega

theorem nesting_raised (f : Formula) : f.raised.nesting = f.nestingUnder .and := by
  simp [raised, nesting, nestingOf, nestingUnder, enclosedUnder]

theorem wellFormed_tower (nesting : Nat) : (tower nesting).WellFormed := by
  induction nesting with
  | zero => exact wellFormed_raised (.var (by decide))
  | succ nesting ih => exact wellFormed_raised ih

theorem height_tower (nesting : Nat) : (tower nesting).height = 2 * nesting + 2 := by
  induction nesting with
  | zero => exact height_raised _
  | succ nesting ih => rw [tower, height_raised, ih, Nat.mul_succ]

/-- A tower stands in parentheses where it is a factor, so each one nests one level deeper. -/
theorem nesting_tower (count : Nat) : (tower count).nesting = count := by
  induction count with
  | zero => exact nesting_raised _
  | succ count ih =>
    have henclosed : (tower count).enclosedUnder .and = true := by cases count <;> rfl
    rw [tower, nesting_raised, nestingUnder, if_pos henclosed, ih, Nat.add_comm]

end Formula

/-! ### Formulas that have been read -/

namespace Parser

open Grammar

variable {limit : Nat} {tokens : List Token} {f : Formula}

theorem height_le_of_ofTokens (h : Formula.ofTokens tokens limit = .ok f) :
    f.height ≤ 2 * limit + 2 :=
  height_le_of_derives (ofTokens_eq_ok_iff_derives.1 h)

/-- The limit has a formula of the greatest height, and a text for it. -/
theorem exists_tokens_of_height (limit : Nat) :
    ∃ text tokens f, tokenize text .symbolic = .ok tokens ∧
      Formula.ofTokens tokens limit = .ok f ∧ f.height = 2 * limit + 2 := by
  have hwell := Formula.wellFormed_tower limit
  obtain ⟨tokens, htokens, hkinds⟩ := hwell.tokenize_text .symbolic
  refine ⟨(Formula.tower limit).text, tokens, Formula.tower limit, htokens, ?_,
    Formula.height_tower limit⟩
  exact Formula.ofTokens_of_nesting_le hwell hkinds (Nat.le_of_eq (Formula.nesting_tower limit))

/-- **The limit of nesting bounds the height**: a formula that a parser finds is at most two steps
higher than twice its limit, and for every limit there is a text of one that high. So a formula that
has been read from a text is drawn on the levels 0 to 514 at most, and whatever works from it down
to its leaves, by printing, copying, comparing or releasing it, makes at most 515 nested calls. -/
theorem height_bounded_by_limit {α : Type} [Scalar α] (limit : Nat) :
    (∀ tokens f, Formula.ofTokens tokens limit = .ok f → f.height ≤ 2 * limit + 2) ∧
    (∃ text tokens f, tokenize text .symbolic = .ok tokens ∧
      Formula.ofTokens tokens limit = .ok f ∧ f.height = 2 * limit + 2) ∧
    ∀ text spelling f, Formula.read text spelling = .ok f →
      (∀ settings : Settings α, (f.layout settings).maxLevel ≤ 514) ∧ f.NestsWithin 515 := by
  refine ⟨fun tokens f => height_le_of_ofTokens, exists_tokens_of_height limit, ?_⟩
  intro text spelling f h
  obtain ⟨tokens, -, hf⟩ := Formula.read_eq_ok_iff.1 h
  have hheight : f.height ≤ 514 := height_le_of_ofTokens hf
  refine ⟨fun settings => ?_, Formula.nestsWithin_of_height_lt (Nat.lt_succ_of_le hheight)⟩
  rw [f.maxLevel_layout settings]
  exact hheight

end Parser

end Schematic
