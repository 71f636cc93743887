import Schematic.Diagram.Document
import Schematic.Session

/-!
# A session as a page sees it

What a page that shows a diagram asks of its session: truth values for signals, and the document
to draw.
-/

namespace Schematic.Session

/-- The truth value that the diagram on show puts out, where it is known. -/
def value? (session : Session Float) : Option Bool := session.output?.bind Signal.toBool?

/-- The text of the document to draw; that of nothing, if nothing is on show. -/
def document (session : Session Float) : String :=
  match session.diagram with
  | some diagram => diagram.jsonText
  | none => "null"

end Schematic.Session
