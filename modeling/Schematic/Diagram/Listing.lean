import Schematic.Decimal.Places
import Schematic.Diagram
import Schematic.Formula.Printer
import Schematic.Text.Padded

/-!
# A diagram as a listing

The formula, a table with a line for every node, and the output. Positions and sizes are rounded
to whole units; a signal that has not been worked out is a dash.
-/

namespace Schematic

/-- A signal in a listing. -/
def Signal.listed : Option Signal → String
  | some signal => signal.text
  | none => "-"

/-- A line of the table. -/
def Diagram.row (id gate label level position size signal : String) : String :=
  " ".intercalate
    [Text.padRight 5 id, Text.padRight 4 gate, Text.padRight 5 label, Text.padLeft 5 level,
      Text.padLeft 15 position, Text.padLeft 15 size, Text.padLeft 3 signal]

/-- The head of the table. -/
def Diagram.heading : String :=
  row "id" "kind" "label" "level" "position" "size" "sig"

/-- The line of a node. -/
def Node.row (node : Node Float) : String :=
  let x := Decimal.fixed 0 node.box.x
  let y := Decimal.fixed 0 node.box.y
  let width := Decimal.fixed 0 node.box.width
  let height := Decimal.fixed 0 node.box.height
  Diagram.row node.id.text node.operation.gate.key node.label (Nat.repr node.level)
    s!"({x}, {y})" s!"{width}x{height}" (Signal.listed node.signal)

/-- The lines of a listing. -/
def Diagram.listing (diagram : Diagram Float) : List String :=
  diagram.formula.text :: Diagram.heading :: diagram.nodes.toList.map Node.row ++
    ["output = " ++ Signal.listed diagram.output?]

end Schematic
