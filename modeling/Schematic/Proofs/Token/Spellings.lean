import Schematic.Compile
import Schematic.Proofs.Token.Lexical

/-!
# The two spellings

Where letters stand apart, every run of letters is a single one, and words are read as letters are.
Where two of them stand side by side, the second is a token if letters are variables and none if
words are read. A stray character is reported in either spelling.

Main result: the two spellings cut a text into the same tokens if and only if it has an error or
its letters stand apart, and then they give the same formula and the same diagram
(`spellings_agree`).
-/

namespace Schematic.Lexer

variable {text : List Char}

/-- A letter that stands alone is the same token in either spelling. -/
theorem kindAt?_keywords {c : Char} {inWord : Bool} (hbefore : inWord = true → c.isAlpha = false)
    (hafter : c.isAlpha = true → NoLetter text) :
    kindAt? .keywords inWord c text = kindAt? .symbolic inWord c text := by
  cases halpha : c.isAlpha with
  | false => rw [kindAt?, kindAt?, halpha]; rfl
  | true =>
    have hword : inWord = false := by
      cases inWord with
      | false => rfl
      | true => rw [hbefore rfl] at halpha; cases halpha
    have hmore := takeWhile_of_noLetter (hafter halpha)
    rw [kindAt?_of_isAlpha halpha, kindAt?_of_isAlpha halpha, letterKind?, letterKind?, hword,
      hmore]
    simp [word]

/-- Where letters stand apart, both spellings find the same tokens. -/
theorem scan_keywords {inWord : Bool} (h : LettersApart text)
    (hbefore : inWord = true → NoLetter text) (position : Nat) :
    scan .keywords inWord position text = scan .symbolic inWord position text := by
  induction text generalizing inWord position with
  | nil => rfl
  | cons c text ih =>
    have hkind : kindAt? .keywords inWord c text = kindAt? .symbolic inWord c text :=
      kindAt?_keywords (fun hword => hbefore hword c rfl) h.noLetter
    rw [scan, scan, hkind, ih h.tail h.noLetter]

/-- Of two letters side by side the second is a token only where letters are variables. -/
theorem lettersApart_of_lexed {tokens : List Token} (hletters : Lexed .symbolic text tokens)
    (hwords : Lexed .keywords text tokens) : LettersApart text := by
  refine List.isChain_iff_forall_rel_of_append_cons_cons.2 ?_
  rintro c d before after rfl ⟨hc, hd⟩
  have hsplit : before ++ c :: d :: after = (before ++ [c]) ++ d :: after := by simp
  have hmem : ⟨.identifier d.toUpper, (before ++ [c]).length⟩ ∈ tokens :=
    hletters.mem_iff.2 ⟨before ++ [c], d :: after, hsplit, rfl, .letter rfl hd⟩
  obtain ⟨front, rest, hfront, hposition, hlexeme⟩ := hwords.mem_iff.1 hmem
  obtain ⟨rfl, rfl⟩ := List.append_inj (hsplit.symm.trans hfront) hposition
  rw [lexeme_cons_iff, endsInLetter_concat, hc, kindAt?_of_isAlpha hd] at hlexeme
  cases hlexeme

end Schematic.Lexer

namespace Schematic

open Lexer

theorem lettersApart_of_tokenize_eq {text : String} {tokens : List Token}
    (hletters : tokenize text .symbolic = .ok tokens)
    (hwords : tokenize text .keywords = .ok tokens) : LettersApart text.toList := by
  rw [tokenize_eq_scan] at hletters hwords
  exact lettersApart_of_lexed (lexed_of_scan hletters) (lexed_of_scan hwords)

theorem tokenize_eq_of_lettersApart {text : String} (h : LettersApart text.toList) :
    tokenize text .symbolic = tokenize text .keywords := by
  rw [tokenize_eq_scan, tokenize_eq_scan, scan_keywords h (by simp)]

/-- **The spellings agree exactly where they should**: they give the same tokens, or the same
error, if and only if there is an error or no two letters stand side by side. Where none do, they
give the same formula and the same diagram, or fail alike. -/
theorem spellings_agree (text : String) :
    (tokenize text .symbolic = tokenize text .keywords ↔
      (∃ spelling error, tokenize text spelling = .error error) ∨ LettersApart text.toList) ∧
    (LettersApart text.toList →
      Formula.read text .symbolic = Formula.read text .keywords ∧
      ∀ {α : Type} [Scalar α] (settings : Settings α),
        compile text .symbolic settings = compile text .keywords settings) := by
  refine ⟨⟨fun h => ?_, ?_⟩, fun h => ?_⟩
  · cases hwords : tokenize text .keywords with
    | error error => exact .inl ⟨_, error, hwords⟩
    | ok tokens => exact .inr (lettersApart_of_tokenize_eq (h.trans hwords) hwords)
  · rintro (⟨spelling, error, herror⟩ | hapart)
    · have hstray := tokenize_eq_error_iff.1 herror
      rw [tokenize_eq_error_iff.2 hstray, tokenize_eq_error_iff.2 hstray]
    · exact tokenize_eq_of_lettersApart hapart
  · have hread : Formula.read text .symbolic = Formula.read text .keywords := by
      rw [Formula.read, Formula.read, tokenize_eq_of_lettersApart h]
    exact ⟨hread, fun settings => by rw [compile, compile, hread]⟩

end Schematic
