import Schematic.Formula
import Schematic.Token

/-!
# The grammar of formulas

The grammar that tokens are read by, as a relation between a phrase, the kinds of its tokens and
the formula it denotes:

    disjunction  =  conjunction { '+' conjunction }
    conjunction  =  negation { '.' negation }
    negation     =  '!' negation  |  primary
    primary      =  variable  |  '(' disjunction ')'

A chain of one operand denotes that operand, a longer one a single node with all its operands in
order. The relation also counts levels: a `!` or a parenthesis takes one of the levels that the
phrase around it allows, so in a phrase of `levels` levels no token stands inside more than that
many of them.

Main results: more levels allow no less (`Derives.mono`), and the end of the text is no part of a
phrase (`Derives.endOfInput_notMem`).
-/

namespace Schematic.Grammar

/-- The phrases of the grammar, from the loosest to the tightest. -/
inductive Phrase where
  /-- Conjunctions with `+` between them. -/
  | disjunction
  /-- Negations with `.` between them. -/
  | conjunction
  /-- A primary with any number of `!` before it. -/
  | negation
  /-- A variable, or a disjunction in parentheses. -/
  | primary
  deriving DecidableEq

/-- The tokens of operands, with a sign between any two. -/
def joined (sign : Token.Kind) (parts : List (List Token.Kind × Formula)) : List Token.Kind :=
  [sign].intercalate (parts.map (·.1))

/-- The tokens are a phrase that denotes the formula, and in it none stands inside more than
`levels` negations and parentheses. -/
inductive Derives : Phrase → (levels : Nat) → List Token.Kind → Formula → Prop where
  /-- A variable, whichever its case. -/
  | identifier {levels : Nat} (name : Char) :
    Derives .primary levels [.identifier name] (.var name.toUpper)
  /-- A disjunction in parentheses. -/
  | parens {levels : Nat} {kinds : List Token.Kind} {f : Formula} :
    Derives .disjunction levels kinds f →
      Derives .primary (levels + 1) (.openParen :: (kinds ++ [.closeParen])) f
  /-- A primary without `!`. -/
  | primary {levels : Nat} {kinds : List Token.Kind} {f : Formula} :
    Derives .primary levels kinds f → Derives .negation levels kinds f
  /-- One more `!`. -/
  | not {levels : Nat} {kinds : List Token.Kind} {f : Formula} :
    Derives .negation levels kinds f → Derives .negation (levels + 1) (.not :: kinds) (.not f)
  /-- A single factor. -/
  | factor {levels : Nat} {kinds : List Token.Kind} {f : Formula} :
    Derives .negation levels kinds f → Derives .conjunction levels kinds f
  /-- Two factors or more. -/
  | and {levels : Nat} (parts : List (List Token.Kind × Formula)) :
    2 ≤ parts.length → (∀ part ∈ parts, Derives .negation levels part.1 part.2) →
      Derives .conjunction levels (joined .and parts) (.and (parts.map (·.2)))
  /-- A single term. -/
  | term {levels : Nat} {kinds : List Token.Kind} {f : Formula} :
    Derives .conjunction levels kinds f → Derives .disjunction levels kinds f
  /-- Two terms or more. -/
  | or {levels : Nat} (parts : List (List Token.Kind × Formula)) :
    2 ≤ parts.length → (∀ part ∈ parts, Derives .conjunction levels part.1 part.2) →
      Derives .disjunction levels (joined .or parts) (.or (parts.map (·.2)))

/-! ### Joined operands -/

@[simp] theorem joined_singleton (sign : Token.Kind) (part : List Token.Kind × Formula) :
    joined sign [part] = part.1 := by
  simp [joined]

/-- Every operand but the last is followed by the sign. -/
theorem joined_concat (sign : Token.Kind) (parts : List (List Token.Kind × Formula))
    (last : List Token.Kind × Formula) :
    joined sign (parts ++ [last]) = parts.flatMap (fun part => part.1 ++ [sign]) ++ last.1 := by
  induction parts with
  | nil => simp
  | cons part parts ih =>
    rw [joined] at ih ⊢
    cases parts <;> simp_all [List.intercalate]

theorem joined_cons_cons (sign : Token.Kind) (part next : List Token.Kind × Formula)
    (parts : List (List Token.Kind × Formula)) :
    joined sign (part :: next :: parts) = part.1 ++ sign :: joined sign (next :: parts) := by
  simp [joined, List.intercalate]

/-- What is neither the sign nor in an operand is not in the joined operands. -/
theorem notMem_joined {sign kind : Token.Kind} {parts : List (List Token.Kind × Formula)}
    (hsign : kind ≠ sign) (h : ∀ part ∈ parts, kind ∉ part.1) : kind ∉ joined sign parts := by
  induction parts with
  | nil => simp [joined]
  | cons part parts ih =>
    obtain ⟨hpart, hparts⟩ := List.forall_mem_cons.1 h
    cases parts with
    | nil => simpa using hpart
    | cons next parts =>
      intro hmem
      rw [joined_cons_cons, List.mem_append, List.mem_cons] at hmem
      rcases hmem with hmem | hmem | hmem
      · exact hpart hmem
      · exact hsign hmem
      · exact ih hparts hmem

/-! ### Phrases -/

variable {phrase : Phrase} {levels : Nat} {kinds : List Token.Kind} {f : Formula}

/-- A phrase stays one when more levels are allowed. -/
theorem Derives.mono (h : Derives phrase levels kinds f) {more : Nat} (hle : levels ≤ more) :
    Derives phrase more kinds f := by
  induction h generalizing more with
  | identifier name => exact .identifier name
  | parens _ ih =>
    obtain ⟨more, rfl⟩ : ∃ n, more = n + 1 := ⟨more - 1, by omega⟩
    exact .parens (ih (by omega))
  | primary _ ih => exact .primary (ih hle)
  | not _ ih =>
    obtain ⟨more, rfl⟩ : ∃ n, more = n + 1 := ⟨more - 1, by omega⟩
    exact .not (ih (by omega))
  | factor _ ih => exact .factor (ih hle)
  | and parts hlen _ ih => exact .and parts hlen fun part hpart => ih part hpart hle
  | term _ ih => exact .term (ih hle)
  | or parts hlen _ ih => exact .or parts hlen fun part hpart => ih part hpart hle

/-- The end of the text is no part of a phrase. -/
theorem Derives.endOfInput_notMem (h : Derives phrase levels kinds f) :
    .endOfInput ∉ kinds := by
  induction h with
  | identifier name => simp
  | parens _ ih => simpa using ih
  | primary _ ih => exact ih
  | not _ ih => simpa using ih
  | factor _ ih => exact ih
  | and parts _ _ ih => exact notMem_joined (by decide) ih
  | term _ ih => exact ih
  | or parts _ _ ih => exact notMem_joined (by decide) ih

end Schematic.Grammar
