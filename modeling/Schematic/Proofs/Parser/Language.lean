import Mathlib.Data.Set.Subsingleton
import Schematic.Proofs.Parser.Completeness
import Schematic.Proofs.Parser.Soundness

/-!
# The language of the parser

The parser accepts exactly the disjunctions of the grammar whose levels keep to the limit, and
answers with the formula that the disjunction denotes. Tokens behind the first end do not matter,
nor does it matter whether there is an end.
-/

namespace Schematic.Parser

open Grammar

/-- The machine reads tokens to the end if and only if they are a disjunction within the limit. -/
theorem reads_start_iff_derives {limit : Nat} {kinds : List Token.Kind} {f : Formula} :
    (∃ last, (State.start 0).reads limit kinds = some last ∧ last.finish = .ok f) ↔
      Derives .disjunction limit kinds f := by
  constructor
  · rintro ⟨last, hreads, hfinish⟩
    exact derives_of_reads hreads hfinish
  · exact reads_start_of_derives

theorem ofTokens_eq_ok_iff_derives {tokens : List Token} {limit : Nat} {f : Formula} :
    Formula.ofTokens tokens limit = .ok f ↔
      Derives .disjunction limit (kindsBeforeEnd tokens) f := by
  rw [ofTokens_eq_ok_iff, reads_start_iff_derives]

/-- The grammar is unambiguous: tokens denote one formula at most, whatever the levels. -/
theorem derives_subsingleton (kinds : List Token.Kind) :
    {f | ∃ levels, Derives .disjunction levels kinds f}.Subsingleton := by
  rintro f ⟨m, hf⟩ g ⟨n, hg⟩
  obtain ⟨last, hlast, hfinish⟩ := reads_start_of_derives (hf.mono (Nat.le_max_left m n))
  obtain ⟨other, hother, hfinish'⟩ := reads_start_of_derives (hg.mono (Nat.le_max_right m n))
  rw [hlast, Option.some.injEq] at hother
  rw [← hother, hfinish] at hfinish'
  exact Except.ok.inj hfinish'

/-- **The parser accepts exactly its grammar**: it finds a formula if and only if the tokens before
the first end are a disjunction that denotes it and in which no token stands inside more negations
and parentheses than the limit allows. The grammar gives tokens one formula at most. -/
theorem accepts_exactly_grammar (tokens : List Token) (limit : Nat) (f : Formula) :
    (Formula.ofTokens tokens limit = .ok f ↔
      Derives .disjunction limit (kindsBeforeEnd tokens) f) ∧
    {g | ∃ levels, Derives .disjunction levels (kindsBeforeEnd tokens) g}.Subsingleton :=
  ⟨ofTokens_eq_ok_iff_derives, derives_subsingleton _⟩

end Schematic.Parser
