/-!
# Errors

Why an operation of the library can fail, with the message that a reader sees. The three
errors of reading a formula name a position, counted in characters from the start.
-/

namespace Schematic

/-- Why an operation failed. -/
inductive Error where
  /-- A character that starts no token. -/
  | strayCharacter (position : Nat) (character : Char)
  /-- A token that cannot stand where it does. -/
  | unexpectedToken (position : Nat) (expected found : String)
  /-- Negations and parentheses open inside each other beyond the limit. -/
  | nestingTooDeep (position limit : Nat)
  /-- There is nothing to draw. -/
  | emptyExpression
  /-- The diagram has no such variable. -/
  | unknownVariable (name : Char)
  /-- A text that does not set a switch. -/
  | invalidAssignment (text : String)
  /-- A diagram that breaks a rule of placement. -/
  | invalidLayout (message : String)
  /-- A file that cannot be read. -/
  | unreadableFile (path reason : String)
  deriving DecidableEq, Repr

namespace Error

/-- What the reader is told. -/
def message : Error → String
  | strayCharacter position character =>
    s!"Lexer error at position {position}: unexpected character '{character}'"
  | unexpectedToken position expected found =>
    s!"Parse error at position {position}: expected {expected}, found {found}"
  | nestingTooDeep position limit =>
    s!"Parse error at position {position}: nesting deeper than {limit} levels"
  | emptyExpression => "Empty expression"
  | unknownVariable name => s!"Variable '{name}' does not appear in the diagram"
  | invalidAssignment text => s!"Invalid assignment '{text}' (expected NAME=0|1|true|false)"
  | invalidLayout message => s!"Invalid layout: {message}"
  | unreadableFile path reason => s!"Failed to read expression file '{path}': {reason}"

/-- The place in the text, for the errors that have one. -/
def position? : Error → Option Nat
  | strayCharacter position _ => some position
  | unexpectedToken position _ _ => some position
  | nestingTooDeep position _ => some position
  | _ => none

end Error

end Schematic
