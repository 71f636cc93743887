import Schematic.Formula.Parser
import Schematic.Token.Lexer

/-!
# Reading a formula from text

The text is cut into tokens first, so a character that starts no token is reported even when
an earlier token is out of place.
-/

namespace Schematic.Formula

/-- The formula that a text is. -/
def read (text : String) (spelling : Spelling) : Except Error Formula := do
  let tokens ← tokenize text spelling
  (ofTokens tokens Parser.defaultLimit).mapError Parser.Fault.toError

end Schematic.Formula
