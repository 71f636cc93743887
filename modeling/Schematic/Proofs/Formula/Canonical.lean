import Schematic.Proofs.Formula.Nesting
import Schematic.Proofs.Formula.Structure
import Schematic.Proofs.Token.Lexemes
import Schematic.Text.Letter

/-!
# The tokens of the canonical text

In the canonical text of a well-formed formula no two letters stand side by side, so either
spelling reads every character but the blanks as a token (`WellFormed.tokenize_text`). The tokens
are a phrase of the grammar that denotes the formula and takes no more levels than its nesting
(`WellFormed.derives`): the induction is on the formula, and a chain joins the phrases of its
operands, in parentheses where they are printed so.
-/

namespace Schematic.Formula

open Grammar
open Lexer (Plain plain_nil)

/-! ### Letters -/

theorem sign?_of_isUpper {c : Char} (h : c.isUpper = true) : Lexer.sign? c = none := by
  unfold Lexer.sign?
  split <;> first | rfl | cases h

/-- A capital letter is the token of its variable. -/
theorem glyph?_of_isUpper {c : Char} (h : c.isUpper = true) :
    Lexer.glyph? c = some (.identifier c) := by
  rw [Lexer.glyph?, sign?_of_isUpper h, if_pos (Text.isAlpha_of_isUpper h), Lexer.named,
    Text.toUpper_of_isUpper h]
  rfl

/-! ### The characters of operands -/

/-- The characters of an operand of a gate, its parentheses included. -/
def charsUnder (above : Gate) (f : Formula) : List Char := enclose (f.enclosedUnder above) f.chars

/-- The tokens of a formula's canonical text. -/
def kinds (f : Formula) : List Token.Kind := f.chars.filterMap Lexer.glyph?

/-- The tokens of an operand of a gate, its parentheses included. -/
def kindsUnder (above : Gate) (f : Formula) : List Token.Kind :=
  (f.charsUnder above).filterMap Lexer.glyph?

theorem kindsUnder_of_enclosed {above : Gate} {f : Formula} (h : f.enclosedUnder above = true) :
    f.kindsUnder above = .openParen :: (f.kinds ++ [.closeParen]) := by
  have hopen : Lexer.glyph? '(' = some .openParen := rfl
  have hclose : Lexer.glyph? ')' = some .closeParen := rfl
  simp [kindsUnder, charsUnder, enclose, h, kinds, hopen, hclose]

theorem kindsUnder_of_free {above : Gate} {f : Formula} (h : f.enclosedUnder above = false) :
    f.kindsUnder above = f.kinds := by
  simp [kindsUnder, charsUnder, enclose, h, kinds]

theorem kinds_not (f : Formula) : (Formula.not f).kinds = .not :: f.kindsUnder .not := by
  have hnot : Lexer.glyph? '!' = some .not := rfl
  simp [kinds, chars, kindsUnder, charsUnder, hnot]

/-- The tokens of the operands of a gate are joined by the token of its separator. -/
theorem filterMap_charsOf {above : Gate} {sign : Token.Kind}
    (hsign : (separator above).filterMap Lexer.glyph? = [sign]) (operands : List Formula) :
    (charsOf above operands).filterMap Lexer.glyph? =
      joined sign (operands.map fun f => (f.kindsUnder above, f)) := by
  induction operands with
  | nil => rfl
  | cons f operands ih =>
    cases operands with
    | nil => simp [charsOf, kindsUnder, charsUnder]
    | cons g operands =>
      rw [charsOf, List.filterMap_append, List.filterMap_append, hsign, ih]
      simp only [List.map_cons]
      rw [joined_cons_cons]
      simp [kindsUnder, charsUnder]

theorem kinds_and (operands : List Formula) :
    (Formula.and operands).kinds =
      joined .and (operands.map fun f => (f.kindsUnder .and, f)) := by
  rw [kinds, chars, filterMap_charsOf rfl]

theorem kinds_or (operands : List Formula) :
    (Formula.or operands).kinds =
      joined .or (operands.map fun f => (f.kindsUnder .or, f)) := by
  rw [kinds, chars, filterMap_charsOf rfl]

/-! ### The phrase of a formula -/

/-- The phrase that the canonical text of a formula is. -/
def phrase : Formula → Phrase
  | var _ => .primary
  | not _ => .negation
  | and _ => .conjunction
  | or _ => .disjunction

/-- The phrase that an operand of a gate is. -/
def operandPhrase : Gate → Phrase
  | .or => .conjunction
  | _ => .negation

/-- A phrase of a formula's own kind is a disjunction. -/
theorem disjunction_of_phrase {f g : Formula} {levels : Nat} {kinds : List Token.Kind}
    (h : Derives f.phrase levels kinds g) : Derives .disjunction levels kinds g := by
  cases f with
  | var name => exact .term (.factor (.primary h))
  | not operand => exact .term (.factor h)
  | and operands => exact .term h
  | or operands => exact h

/-- Under a gate a formula is printed as the phrase that the grammar wants there. -/
theorem derives_kindsUnder (above : Gate) {f : Formula}
    (h : Derives f.phrase f.nesting f.kinds f) :
    Derives (operandPhrase above) (f.nestingUnder above) (f.kindsUnder above) f := by
  by_cases henclosed : f.enclosedUnder above = true
  · have hparens := Derives.parens (disjunction_of_phrase h)
    rw [kindsUnder_of_enclosed henclosed, nestingUnder, if_pos henclosed, Nat.add_comm]
    cases above with
    | or => exact .factor (.primary hparens)
    | var | not | and => exact .primary hparens
  · rw [Bool.not_eq_true] at henclosed
    rw [kindsUnder_of_free henclosed, nestingUnder, henclosed, if_neg (by simp), Nat.zero_add]
    cases f with
    | var name =>
      cases above with
      | or => exact .factor (.primary h)
      | var | not | and => exact .primary h
    | not operand =>
      cases above with
      | or => exact .factor h
      | var | not | and => exact h
    | and operands =>
      cases above with
      | or => exact h
      | var | not | and => cases henclosed
    | or operands => cases henclosed

/-- The operands of a gate are phrases within the levels of the gate. -/
theorem derives_operands (above : Gate) {operands : List Formula}
    (h : ∀ f ∈ operands, Derives f.phrase f.nesting f.kinds f) :
    ∀ part ∈ operands.map fun f => (f.kindsUnder above, f),
      Derives (operandPhrase above) (nestingOf above operands) part.1 part.2 := by
  rw [List.forall_mem_map]
  intro f hf
  exact (derives_kindsUnder above (h f hf)).mono (nestingUnder_le_nestingOf hf)

/-- The tokens of the canonical text denote the formula, within the levels of its nesting. -/
theorem WellFormed.derives_phrase {f : Formula} (hf : f.WellFormed) :
    Derives f.phrase f.nesting f.kinds f := by
  induction hf with
  | @var name hname =>
    have hkinds : (Formula.var name).kinds = [.identifier name] := by
      simp [kinds, chars, glyph?_of_isUpper hname]
    have hvar : Derives .primary 0 [.identifier name] (.var name.toUpper) := .identifier name
    rwa [Text.toUpper_of_isUpper hname, ← hkinds] at hvar
  | @not operand _ ih =>
    rw [kinds_not]
    exact .not (derives_kindsUnder .not ih)
  | @and operands hlen _ ih =>
    have hand := Derives.and _ (by simpa using hlen) (derives_operands .and ih)
    rw [kinds_and]
    simpa [Function.comp_def, phrase, nesting] using hand
  | @or operands hlen _ ih =>
    have hor := Derives.or _ (by simpa using hlen) (derives_operands .or ih)
    rw [kinds_or]
    simpa [Function.comp_def, phrase, nesting] using hor

theorem WellFormed.derives {f : Formula} (hf : f.WellFormed) :
    Derives .disjunction f.nesting f.kinds f :=
  disjunction_of_phrase hf.derives_phrase

/-! ### The lexer on the canonical text -/

theorem plain_enclose {text : List Char} (h : Plain text) (enclosed : Bool) :
    Plain (enclose enclosed text) := by
  cases enclosed with
  | false => exact h
  | true =>
    have hclosed : Plain (text ++ [')']) :=
      h.append_cons plain_nil (.inr (by decide)) (by decide)
    exact hclosed.cons (.inr (by decide)) (by decide)

theorem plain_append_separator {left right : List Char} (hleft : Plain left)
    (hright : Plain right) (above : Gate) : Plain (left ++ separator above ++ right) := by
  cases above with
  | or =>
    have hplus : Plain ('+' :: ' ' :: right) :=
      (hright.cons (.inl (by decide)) (by decide)).cons (.inr (by decide)) (by decide)
    simpa [separator] using hleft.append_cons hplus (.inl (by decide)) (by decide)
  | var | not | and =>
    simpa [separator] using hleft.append_cons hright (.inr (by decide)) (by decide)

theorem plain_charsOf (above : Gate) {operands : List Formula}
    (h : ∀ f ∈ operands, Plain f.chars) : Plain (charsOf above operands) := by
  induction operands with
  | nil => exact plain_nil
  | cons f operands ih =>
    have hf : Plain (enclose (f.enclosedUnder above) f.chars) := plain_enclose (h f (by simp)) _
    have hrest := ih fun g hg => h g (List.mem_cons_of_mem f hg)
    cases operands with
    | nil => exact hf
    | cons g operands => exact plain_append_separator hf hrest above

theorem WellFormed.plain_chars {f : Formula} (hf : f.WellFormed) : Plain f.chars := by
  induction hf with
  | @var name hname =>
    refine ⟨?_, List.isChain_singleton name⟩
    simp [chars, glyph?_of_isUpper hname]
  | not _ ih => exact (plain_enclose ih _).cons (.inr (by decide)) (by decide)
  | and _ _ ih => exact plain_charsOf .and ih
  | or _ _ ih => exact plain_charsOf .or ih

/-- Either spelling reads the canonical text as the tokens of the formula and the end. -/
theorem WellFormed.tokenize_text {f : Formula} (hf : f.WellFormed) (spelling : Spelling) :
    ∃ tokens, tokenize f.text spelling = .ok tokens ∧
      tokens.map (·.kind) = f.kinds ++ [.endOfInput] := by
  refine ⟨Lexer.glyphs 0 f.chars, ?_, Lexer.kinds_glyphs 0 f.chars⟩
  rw [tokenize, Lexer.ofString, text, String.toList_ofList]
  exact Lexer.tokens_eq_glyphs spelling 0 hf.plain_chars

end Schematic.Formula
