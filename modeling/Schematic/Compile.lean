import Schematic.Formula.Reading
import Schematic.Layout
import Schematic.Text.Blank

/-!
# From text to a diagram

A formula's text is read and laid out. A text of blanks only is no formula, and is refused before
it is read.
-/

namespace Schematic

variable {α : Type} [Scalar α]

/-- Draws the formula that a text is. -/
def compile (text : String) (spelling : Spelling) (settings : Settings α) :
    Except Error (Diagram α) := do
  if Text.isAllBlank text then throw .emptyExpression
  let formula ← Formula.read text spelling
  pure (formula.layout settings)

end Schematic
