import Schematic.Diagram.Document
import Schematic.Proofs.Json

/-!
# What a renderer is handed

A document described by its values and their texts and not by the way they are made. The values of a
diagram stand under their names in a fixed order, and the fields of a node's operation among them
(`Diagram.Records`). A text spells a value by the grammar of the language, with given ways to write
a character in a string and a real number (`Json.Spells`). So a diagram is rendered by one text only
(`Diagram.renders_iff`).
-/

namespace Schematic

variable {α : Type}

/-! ### Texts -/

namespace Json

/-- A text spells a value. -/
inductive Spells (char : Char → List Char) (real : α → Option (List Char)) :
    Json α → List Char → Prop where
  /-- Nothing has a word. -/
  | null : Spells char real .null ['n', 'u', 'l', 'l']
  /-- A natural number is spelled by its digits. -/
  | natural {n : Nat} : Spells char real (.natural n) (Nat.toDigits 10 n)
  /-- A real number is written as given. -/
  | real {x : α} {text : List Char} : real x = some text → Spells char real (.real x) text
  /-- One that has no text is spelled like nothing. -/
  | unwritten {x : α} : real x = none → Spells char real (.real x) ['n', 'u', 'l', 'l']
  /-- The characters of a string stand between quotes. -/
  | string {text : String} :
    Spells char real (.string text) (['"'] ++ text.toList.flatMap char ++ ['"'])
  /-- The values of a list stand between brackets, with commas between them. -/
  | array {items : List (Json α)} {texts : List (List Char)} :
    List.Forall₂ (Spells char real) items texts →
    Spells char real (.array items) (['['] ++ [','].intercalate texts ++ [']'])
  /-- The values of a record stand between braces, with commas between them, and each behind its
  name and a colon. -/
  | object {fields : List (String × Json α)} {texts : List (List Char)} :
    List.Forall₂ (Spells char real) (fields.map Prod.snd) texts →
    Spells char real (.object fields)
      (['{'] ++ [','].intercalate (List.zipWith (fun field text =>
        ['"'] ++ field.1.toList.flatMap char ++ ['"', ':'] ++ text) fields texts) ++ ['}'])

variable {char : Char → List Char} {real : α → Option (List Char)}

/-- A value is spelled by one text. -/
theorem spells_iff (a : Json α) {text : List Char} :
    a.Spells char real text ↔ text = a.chars char real := by
  cases a with
  | null =>
    constructor
    · rintro ⟨⟩
      rfl
    · rintro rfl
      exact .null
  | natural n =>
    rw [chars, Nat.toList_repr]
    constructor
    · rintro ⟨⟩
      rfl
    · rintro rfl
      exact .natural
  | real x =>
    rw [chars]
    constructor
    · intro h
      cases h with
      | real htext => rw [htext, Option.getD_some]
      | unwritten hnone =>
        rw [hnone]
        rfl
    · rintro rfl
      cases h : real x with
      | none => exact .unwritten h
      | some text => exact .real h
  | string value =>
    constructor
    · rintro ⟨⟩
      rfl
    · rintro rfl
      exact .string
  | array items =>
    have hitems {texts : List (List Char)} :
        List.Forall₂ (Spells char real) items texts ↔ texts = items.map (chars char real) :=
      forall₂_iff_eq_map fun item hitem text => spells_iff item
    rw [chars, itemChars_eq_intercalate]
    constructor
    · rintro ⟨⟩
      next htexts =>
        rw [hitems.1 htexts]
        rfl
    · rintro rfl
      exact .array (hitems.2 rfl)
  | object fields =>
    have hfields {texts : List (List Char)} :
        List.Forall₂ (Spells char real) (fields.map Prod.snd) texts ↔
          texts = (fields.map Prod.snd).map (chars char real) := by
      refine forall₂_iff_eq_map fun value hvalue text => ?_
      obtain ⟨⟨name, value⟩, hfield, rfl⟩ := List.mem_map.1 hvalue
      exact spells_iff value
    have htexts : List.zipWith (fun field text =>
        ['"'] ++ field.1.toList.flatMap char ++ ['"', ':'] ++ text) fields
          ((fields.map Prod.snd).map (chars char real)) = fields.map (fieldText char real) := by
      rw [List.map_map, List.zipWith_map_right, List.zipWith_self]
      simp [fieldText, quote]
    rw [chars, fieldChars_eq_intercalate, ← htexts]
    constructor
    · rintro ⟨⟩
      next hvalues =>
        rw [hfields.1 hvalues]
        rfl
    · rintro rfl
      exact .object (hfields.2 rfl)
termination_by sizeOf a
decreasing_by
  · have hlt := List.sizeOf_lt_of_mem hitem
    simp only [array.sizeOf_spec]
    omega
  · have hlt := List.sizeOf_lt_of_mem hfield
    simp only [Prod.mk.sizeOf_spec] at hlt
    simp only [object.sizeOf_spec]
    omega

end Json

/-! ### Values -/

/-- The value of a signal. -/
inductive Signal.Records : Option Signal → Json α → Prop where
  /-- It is low. -/
  | low : Records (some .low) (.string "false")
  /-- It is high. -/
  | high : Records (some .high) (.string "true")
  /-- It depends on a switch without a value. -/
  | unknown : Records (some .unknown) (.string "unknown")
  /-- It has not been worked out. -/
  | none : Records none .null

theorem Signal.records_iff {signal : Option Signal} {value : Json α} :
    Records signal value ↔ value = .ofOption (signal.map toJson) := by
  constructor
  · rintro (- | - | - | -) <;> rfl
  · rintro rfl
    rcases signal with - | - | - | -
    · exact .none
    · exact .low
    · exact .high
    · exact .unknown

/-- The fields of an operation: its kind, and the variable or the nodes it reads. -/
inductive Operation.Records : Operation → List (String × Json α) → Prop where
  /-- A switch. -/
  | var {name : Char} : Records (.var name)
    [("kind", .string "VAR"), ("name", .string (String.singleton name))]
  /-- An inverter. -/
  | not {input : NodeId} : Records (.not input)
    [("kind", .string "NOT"), ("input", .natural input)]
  /-- A conjunction. -/
  | and {inputs : List NodeId} : Records (.and inputs)
    [("kind", .string "AND"), ("inputs", .array (inputs.map .natural))]
  /-- A disjunction. -/
  | or {inputs : List NodeId} : Records (.or inputs)
    [("kind", .string "OR"), ("inputs", .array (inputs.map .natural))]

theorem Operation.records_iff {operation : Operation} {fields : List (String × Json α)} :
    operation.Records fields ↔ fields = operation.jsonFields := by
  constructor
  · rintro (- | - | - | -) <;> rfl
  · rintro rfl
    cases operation with
    | var name => exact .var
    | not input => exact .not
    | and inputs => exact .and
    | or inputs => exact .or

/-- The record of a node. The fields of its operation stand behind its number. -/
inductive Node.Records (node : Node α) : Json α → Prop where
  /-- Its fields in their order. -/
  | mk {fields : List (String × Json α)} {signal : Json α} : node.operation.Records fields →
    Signal.Records node.signal signal →
    Records node (.object ([("id", .natural node.id)] ++ fields ++
      [("label", .string node.label), ("level", .natural node.level),
        ("fan_in", .natural node.fanIn), ("width", .real node.box.width),
        ("height", .real node.box.height), ("x", .real node.box.x), ("y", .real node.box.y),
        ("signal", signal)]))

theorem Node.records_iff {node : Node α} {value : Json α} :
    node.Records value ↔ value = node.toJson := by
  constructor
  · rintro ⟨hfields, hsignal⟩
    rw [Operation.records_iff.1 hfields, Signal.records_iff.1 hsignal]
    rfl
  · rintro rfl
    exact .mk (Operation.records_iff.2 rfl) (Signal.records_iff.2 rfl)

/-- The record of a wire. -/
inductive Wire.Records (wire : Wire) : Json α → Prop where
  /-- Its fields in their order. -/
  | mk {signal : Json α} : Signal.Records wire.signal signal →
    Records wire (.object [("from", .natural wire.source), ("to", .natural wire.target),
      ("slot", .natural wire.slot), ("slot_total", .natural wire.slotCount), ("value", signal)])

theorem Wire.records_iff {wire : Wire} {value : Json α} :
    wire.Records value ↔ value = wire.toJson := by
  constructor
  · rintro ⟨hsignal⟩
    rw [Signal.records_iff.1 hsignal]
    rfl
  · rintro rfl
    exact .mk (Signal.records_iff.2 rfl)

/-- The record of a diagram, with those of its nodes and wires. -/
inductive Diagram.Records (diagram : Diagram α) : Json α → Prop where
  /-- Its fields in their order. -/
  | mk {nodes edges : List (Json α)} : List.Forall₂ Node.Records diagram.nodes.toList nodes →
    List.Forall₂ Wire.Records diagram.wires.toList edges →
    Records diagram (.object [("nodes", .array nodes), ("edges", .array edges),
      ("width", .real diagram.width), ("height", .real diagram.height),
      ("root", .natural diagram.root)])

theorem Diagram.records_iff {diagram : Diagram α} {value : Json α} :
    diagram.Records value ↔ value = diagram.toJson := by
  have hnodes {nodes : List (Json α)} : List.Forall₂ Node.Records diagram.nodes.toList nodes ↔
      nodes = diagram.nodes.toList.map Node.toJson :=
    Json.forall₂_iff_eq_map fun node _ _ => node.records_iff
  have hedges {edges : List (Json α)} : List.Forall₂ Wire.Records diagram.wires.toList edges ↔
      edges = diagram.wires.toList.map Wire.toJson :=
    Json.forall₂_iff_eq_map fun wire _ _ => wire.records_iff
  constructor
  · rintro ⟨hnodes', hedges'⟩
    rw [hnodes.1 hnodes', hedges.1 hedges']
    rfl
  · rintro rfl
    exact .mk (hnodes.2 rfl) (hedges.2 rfl)

/-! ### The text of a diagram -/

/-- A text renders a diagram: it spells the diagram's record. Characters are escaped, and finite
numbers are written as decimals that read back. -/
def Diagram.Renders (diagram : Diagram Float) (text : String) : Prop :=
  ∃ value, diagram.Records value ∧ value.Spells Json.escape Decimal.written? text.toList

/-- A diagram is rendered by one text. -/
theorem Diagram.renders_iff {diagram : Diagram Float} {text : String} :
    diagram.Renders text ↔ text = diagram.jsonText := by
  simp only [Renders, records_iff, exists_eq_left, Json.spells_iff]
  rw [jsonText, ← String.toList_inj, String.toList_ofList]

end Schematic
