import Schematic.Decimal.Written
import Schematic.Diagram
import Schematic.Json

/-!
# A diagram as a JSON document

What a renderer is handed: every node with its operation, place and signal, every wire with its
pins and signal, the canvas and the root. The formula and the record of the layout stay behind.
-/

namespace Schematic

variable {α : Type}

/-- A signal in a document. -/
def Signal.toJson (signal : Signal) : Json α := .string signal.word

/-- The fields that tell what a node computes. -/
def Operation.jsonFields (operation : Operation) : List (String × Json α) :=
  ("kind", .string operation.gate.key) ::
    match operation with
    | .var name => [("name", .string (String.singleton name))]
    | .not input => [("input", .natural input)]
    | .and inputs | .or inputs => [("inputs", .array (inputs.map .natural))]

/-- A node in a document. -/
def Node.toJson (node : Node α) : Json α :=
  .object
    (("id", .natural node.id) :: node.operation.jsonFields ++
      [("label", .string node.label),
        ("level", .natural node.level),
        ("fan_in", .natural node.fanIn),
        ("width", .real node.box.width),
        ("height", .real node.box.height),
        ("x", .real node.box.x),
        ("y", .real node.box.y),
        ("signal", .ofOption (node.signal.map Signal.toJson))])

/-- A wire in a document. -/
def Wire.toJson (wire : Wire) : Json α :=
  .object
    [("from", .natural wire.source),
      ("to", .natural wire.target),
      ("slot", .natural wire.slot),
      ("slot_total", .natural wire.slotCount),
      ("value", .ofOption (wire.signal.map Signal.toJson))]

/-- A diagram as a document. -/
def Diagram.toJson (diagram : Diagram α) : Json α :=
  .object
    [("nodes", .array (diagram.nodes.toList.map Node.toJson)),
      ("edges", .array (diagram.wires.toList.map Wire.toJson)),
      ("width", .real diagram.width),
      ("height", .real diagram.height),
      ("root", .natural diagram.root)]

/-- The text of a diagram's document. -/
def Diagram.jsonText (diagram : Diagram Float) : String :=
  String.ofList (diagram.toJson.chars Json.escape Decimal.written?)

end Schematic
