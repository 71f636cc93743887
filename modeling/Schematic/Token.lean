/-!
# Tokens

The pieces a formula's text falls into: variables, operators, parentheses and the end.
-/

namespace Schematic

/-- What a token is. -/
inductive Token.Kind where
  /-- A variable. -/
  | identifier (name : Char)
  /-- The negation sign. -/
  | not
  /-- The conjunction sign. -/
  | and
  /-- The disjunction sign. -/
  | or
  /-- An opening parenthesis. -/
  | openParen
  /-- A closing parenthesis. -/
  | closeParen
  /-- The end of the text. -/
  | endOfInput
  deriving DecidableEq, Repr

/-- A token, with the place of its first character. -/
structure Token where
  /-- What it is. -/
  kind : Token.Kind
  /-- How many characters stand before it. -/
  position : Nat
  deriving DecidableEq, Repr

/-- How a message names a token. -/
def Token.Kind.text : Token.Kind → String
  | identifier name => s!"identifier '{name}'"
  | not => "'!'"
  | and => "'.'"
  | or => "'+'"
  | openParen => "'('"
  | closeParen => "')'"
  | endOfInput => "end of input"

end Schematic
