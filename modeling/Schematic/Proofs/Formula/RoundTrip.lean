import Schematic.Formula.Reading
import Schematic.Proofs.Formula.Canonical
import Schematic.Proofs.Parser.Language

/-!
# Reading the canonical text back

The canonical text of a well-formed formula reads back as that formula, in either spelling and
exactly where the limit is at least its nesting. With a lower limit the parser stops at a `!` or a
parenthesis too many: it answers what it answers with a higher limit or reports its own
(`Parser.ofTokens_of_le_limit`), and the formula itself would take fewer levels than it has.
-/

namespace Schematic.Formula

open Schematic.Parser

section

variable {f : Formula} {tokens : List Token} (hf : f.WellFormed)
  (hkinds : tokens.map (·.kind) = f.kinds ++ [.endOfInput])

include hf hkinds

theorem kindsBeforeEnd_eq_kinds : kindsBeforeEnd tokens = f.kinds := by
  have hend : ∀ kind ∈ f.kinds, decide (kind ≠ .endOfInput) = true := by
    intro kind hkind
    exact decide_eq_true fun h => hf.derives.endOfInput_notMem (h ▸ hkind)
  rw [kindsBeforeEnd, hkinds, List.takeWhile_append_of_pos hend]
  simp

theorem ofTokens_of_nesting_le {limit : Nat} (h : f.nesting ≤ limit) :
    ofTokens tokens limit = .ok f := by
  rw [ofTokens_eq_ok_iff_derives, kindsBeforeEnd_eq_kinds hf hkinds]
  exact hf.derives.mono h

theorem ofTokens_of_lt_nesting {limit : Nat} (h : limit < f.nesting) :
    ∃ position, ofTokens tokens limit = .error (.tooDeep position limit) := by
  rcases Parser.ofTokens_of_le_limit (Nat.le_of_lt h) tokens with herror | heq
  · exact herror
  · rw [ofTokens_of_nesting_le hf hkinds (Nat.le_refl _), ofTokens_eq_ok_iff_derives] at heq
    exact absurd (nesting_le_of_derives heq) (Nat.not_le.2 h)

end

/-- **The canonical text reads back**: its tokens are found in either spelling, and the parser
makes the same formula of them if the limit is at least the nesting of the formula, and else
reports that it is too deep. -/
theorem ofTokens_tokenize_text (f : Formula) (hf : f.WellFormed) (spelling : Spelling) :
    ∃ tokens, tokenize f.text spelling = .ok tokens ∧
      (∀ limit,
        (f.nesting ≤ limit → ofTokens tokens limit = .ok f) ∧
        (limit < f.nesting →
          ∃ position, ofTokens tokens limit = .error (.tooDeep position limit))) ∧
      (f.nesting ≤ defaultLimit → read f.text spelling = .ok f) := by
  obtain ⟨tokens, htokens, hkinds⟩ := hf.tokenize_text spelling
  refine ⟨tokens, htokens, fun limit => ⟨ofTokens_of_nesting_le hf hkinds,
    ofTokens_of_lt_nesting hf hkinds⟩, fun h => ?_⟩
  rw [read, htokens]
  simp only [bind, Except.bind]
  rw [ofTokens_of_nesting_le hf hkinds h]
  rfl

/-- In `!((A + B).!!C)` the last leaf stands inside three `!`s and a pair of parentheses. -/
theorem ofTokens_tokenize_text_nested :
    let f := Formula.not (.and [.or [.var 'A', .var 'B'], .not (.not (.var 'C'))])
    f.WellFormed ∧ f.nesting = 4 ∧ ∃ tokens, tokenize f.text .keywords = .ok tokens ∧
      ofTokens tokens 4 = .ok f ∧ (∃ position, ofTokens tokens 3 = .error (.tooDeep position 3)) ∧
      read f.text .keywords = .ok f := by
  intro f
  have hvar : ∀ name : Char, name.isUpper = true → (Formula.var name).WellFormed :=
    fun _ h => .var h
  have hf : f.WellFormed := by
    refine .not (.and (by decide) (List.forall_mem_cons.2 ⟨.or (by decide) ?_, ?_⟩))
    · simpa using ⟨hvar 'A' (by decide), hvar 'B' (by decide)⟩
    · simpa using WellFormed.not (.not (hvar 'C' (by decide)))
  have hnesting : f.nesting = 4 := by decide
  obtain ⟨tokens, htokens, hlimit, hread⟩ := ofTokens_tokenize_text f hf .keywords
  exact ⟨hf, hnesting, tokens, htokens, (hlimit 4).1 (by decide), (hlimit 3).2 (by decide),
    hread (by decide)⟩

end Schematic.Formula
