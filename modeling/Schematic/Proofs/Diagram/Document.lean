import Schematic.Diagram.Document
import Schematic.Proofs.Decimal.Written
import Schematic.Proofs.Json

/-!
# A document tells the diagram

The keys of a node's document are the same for all nodes but for those of its operation, and these
depend on the gate that stands first; so the values can be compared one by one
(`Node.toJson_injective`). A signal that has not been worked out is `null` and not a word. So the
document tells all that a diagram shows (`Diagram.toJson_eq_iff`). If all numbers are finite, the
text tells the document, in whatever way strings and finite numbers are written, as long as they can
be read back (`Diagram.chars_toJson_eq_iff`). The usual escapes and the shortest decimals are such a
way (`Diagram.jsonText_eq_iff_shows`).
-/

namespace Schematic

variable {α : Type}

/-! ### Documents -/

theorem Signal.word_injective : Function.Injective Signal.word := by
  intro a b
  cases a <;> cases b <;> decide

theorem Gate.key_injective : Function.Injective Gate.key := by
  intro a b
  cases a <;> cases b <;> decide

/-- The word for a signal is not taken for a signal that has not been worked out. -/
theorem Signal.ofOption_toJson_injective :
    Function.Injective fun signal : Option Signal =>
      Json.ofOption (α := α) (signal.map toJson) := by
  intro a b h
  cases a with
  | none =>
    cases b with
    | none => rfl
    | some b => cases h
  | some a =>
    cases b with
    | none => cases h
    | some b => rw [word_injective (Json.string.inj h)]

theorem Json.map_natural_injective :
    Function.Injective (List.map (Json.natural : Nat → Json α)) :=
  List.map_injective_iff.2 fun _ _ => Json.natural.inj

/-- The fields of an operation tell it, whatever fields come behind them. -/
theorem Operation.jsonFields_append_inj {a b : Operation} {fields others : List (String × Json α)}
    (h : a.jsonFields ++ fields = b.jsonFields ++ others) : a = b ∧ fields = others := by
  -- The key of the gate stands first, and the keys of the other fields depend on it alone.
  have hgate : a.gate = b.gate := by
    simp only [jsonFields, List.cons_append, List.cons.injEq, Prod.mk.injEq, true_and,
      Json.string.injEq] at h
    exact Gate.key_injective h.1
  cases a <;> cases b <;> cases hgate <;>
    simp [jsonFields, gate, Json.map_natural_injective.eq_iff] at h ⊢ <;> exact h

theorem Node.toJson_injective : Function.Injective (toJson : Node α → Json α) := by
  rintro ⟨_, _, _, _, _, ⟨_, _, _, _⟩, _⟩ ⟨_, _, _, _, _, ⟨_, _, _, _⟩, _⟩ h
  simp only [toJson, Json.object.injEq, List.cons_append, List.cons.injEq, Prod.mk.injEq, true_and,
    Json.natural.injEq] at h
  obtain ⟨rfl, hfields⟩ := h
  obtain ⟨rfl, hrest⟩ := Operation.jsonFields_append_inj hfields
  simp only [List.cons.injEq, Prod.mk.injEq, true_and, and_true, Json.natural.injEq,
    Json.string.injEq, Json.real.injEq] at hrest
  obtain ⟨rfl, rfl, rfl, rfl, rfl, rfl, rfl, hsignal⟩ := hrest
  rw [Signal.ofOption_toJson_injective hsignal]

theorem Wire.toJson_injective : Function.Injective (toJson : Wire → Json α) := by
  rintro ⟨_, _, _, _, _⟩ ⟨_, _, _, _, _⟩ h
  simp only [toJson, Json.object.injEq, List.cons.injEq, Prod.mk.injEq, true_and, and_true,
    Json.natural.injEq] at h
  obtain ⟨rfl, rfl, rfl, rfl, hsignal⟩ := h
  rw [Signal.ofOption_toJson_injective hsignal]

namespace Diagram

/-- Two diagrams show a renderer the same. -/
structure Shows (diagram other : Diagram α) : Prop where
  /-- They have the same nodes. -/
  nodes : diagram.nodes = other.nodes
  /-- They have the same wires. -/
  wires : diagram.wires = other.wires
  /-- Their canvases are equally wide. -/
  width : diagram.width = other.width
  /-- Their canvases are equally high. -/
  height : diagram.height = other.height
  /-- They have the same root. -/
  root : diagram.root = other.root

/-- The document of a diagram tells all of it but its origin. -/
theorem toJson_eq_iff {diagram other : Diagram α} :
    diagram.toJson = other.toJson ↔ diagram.Shows other := by
  constructor
  · intro h
    simp only [toJson, Json.object.injEq, List.cons.injEq, Prod.mk.injEq, true_and, and_true,
      Json.array.injEq, Json.natural.injEq, Json.real.injEq] at h
    obtain ⟨hnodes, hwires, hwidth, hheight, hroot⟩ := h
    exact ⟨Array.toList_inj.1 (List.map_injective_iff.2 Node.toJson_injective hnodes),
      Array.toList_inj.1 (List.map_injective_iff.2 Wire.toJson_injective hwires), hwidth, hheight,
      hroot⟩
  · rintro ⟨hnodes, hwires, hwidth, hheight, hroot⟩
    rw [toJson, toJson, hnodes, hwires, hwidth, hheight, hroot]

end Diagram

/-! ### Texts -/

section Texts

variable {real : α → Option (List Char)}

theorem Signal.written_ofOption (signal : Option Signal) :
    Json.Written real (Json.ofOption (signal.map toJson)) := by
  cases signal with
  | none => exact .null
  | some signal => exact .string _

theorem Operation.written_of_mem_jsonFields (operation : Operation) :
    ∀ field ∈ operation.jsonFields, Json.Written real field.2 := by
  have hinputs : ∀ inputs : List NodeId, Json.Written real (.array (inputs.map .natural)) := by
    intro inputs
    refine .array fun item hitem => ?_
    obtain ⟨input, -, rfl⟩ := List.mem_map.1 hitem
    exact .natural input
  cases operation with
  | var name => exact List.forall_mem_cons.2 ⟨.string _, List.forall_mem_singleton.2 (.string _)⟩
  | not input => exact List.forall_mem_cons.2 ⟨.string _, List.forall_mem_singleton.2 (.natural _)⟩
  | and inputs | or inputs =>
    exact List.forall_mem_cons.2 ⟨.string _, List.forall_mem_singleton.2 (hinputs _)⟩

theorem Wire.written_toJson (wire : Wire) : wire.toJson.Written real := by
  refine .object ?_
  simp only [List.forall_mem_cons]
  exact ⟨.natural _, .natural _, .natural _, .natural _, Signal.written_ofOption _,
    List.forall_mem_nil _⟩

variable [Scalar α]

/-- All numbers of a box are finite. -/
structure Box.AllFinite (box : Box α) : Prop where
  /-- How far it is from the left. -/
  x : Scalar.isFinite box.x = true
  /-- How far it is from the top. -/
  y : Scalar.isFinite box.y = true
  /-- How wide it is. -/
  width : Scalar.isFinite box.width = true
  /-- How high it is. -/
  height : Scalar.isFinite box.height = true

/-- All numbers of a diagram are finite. -/
structure Diagram.AllFinite (diagram : Diagram α) : Prop where
  /-- Those of its boxes. -/
  boxes : ∀ node ∈ diagram.nodes, node.box.AllFinite
  /-- How wide the canvas is. -/
  width : Scalar.isFinite diagram.width = true
  /-- How high the canvas is. -/
  height : Scalar.isFinite diagram.height = true

variable (hreal : ∀ x : α, Scalar.isFinite x = true → Json.Written real (.real x))

include hreal

theorem Node.written_toJson {node : Node α} (h : node.box.AllFinite) :
    node.toJson.Written real := by
  refine .object ?_
  simp only [List.forall_mem_cons, List.forall_mem_append]
  exact ⟨⟨.natural _, node.operation.written_of_mem_jsonFields⟩, .string _, .natural _, .natural _,
    hreal _ h.width, hreal _ h.height, hreal _ h.x, hreal _ h.y, Signal.written_ofOption _,
    List.forall_mem_nil _⟩

/-- All numbers of a finite diagram's document are written. -/
theorem Diagram.written_toJson {diagram : Diagram α} (h : diagram.AllFinite) :
    diagram.toJson.Written real := by
  refine .object ?_
  simp only [List.forall_mem_cons]
  refine ⟨.array ?_, .array ?_, hreal _ h.width, hreal _ h.height, .natural _,
    List.forall_mem_nil _⟩
  · rw [List.forall_mem_map]
    exact fun node hnode => Node.written_toJson hreal (h.boxes node (Array.mem_toList_iff.1 hnode))
  · rw [List.forall_mem_map]
    exact fun wire _ => wire.written_toJson

/-- The text of a document tells all that the diagram shows, if characters can be read back and
finite numbers have a legible text. -/
theorem Diagram.chars_toJson_eq_iff {char : Char → List Char} (hchar : Json.Readable char)
    (hlegible : Json.Legible real) {diagram other : Diagram α} (h : diagram.AllFinite)
    (hother : other.AllFinite) :
    diagram.toJson.chars char real = other.toJson.chars char real ↔ diagram.Shows other := by
  rw [← toJson_eq_iff]
  constructor
  · exact (written_toJson hreal h).eq_of_chars_eq hchar hlegible (written_toJson hreal hother)
  · exact congrArg (Json.chars char real)

end Texts

/-- The text of a document tells a renderer all that the diagram shows. -/
theorem Diagram.jsonText_eq_iff_shows {diagram other : Diagram Float} (h : diagram.AllFinite)
    (hother : other.AllFinite) : diagram.jsonText = other.jsonText ↔ diagram.Shows other := by
  have hwritten : ∀ x : Float, Scalar.isFinite x = true →
      Json.Written Decimal.written? (.real x) := by
    intro x hx
    obtain ⟨text, htext⟩ := Decimal.exists_written?_eq_some hx
    exact .real htext
  rw [jsonText, jsonText, String.ofList_inj]
  exact chars_toJson_eq_iff hwritten Json.readable_escape Decimal.legible_written? h hother

/-- A diagram of one leaf, with characters that a text escapes. -/
def Diagram.escapedLeaf (signal : Option Signal) : Diagram Float where
  nodes :=
    #[{ id := 0
        operation := .var '"'
        label := "\\"
        level := 0
        fanIn := 1
        box := ⟨0, 0, 1, 1⟩
        signal := signal }]
  wires := #[]
  width := 1
  height := 1
  root := 0
  origin := .ofWires (.var '"') 1 []

/-- A leaf that has not been evaluated is told from one whose signal is unknown. -/
theorem Diagram.jsonText_escapedLeaf_ne :
    (escapedLeaf none).AllFinite ∧ (escapedLeaf (some .unknown)).AllFinite ∧
      (escapedLeaf none).jsonText ≠ (escapedLeaf (some .unknown)).jsonText := by
  have hzero : Scalar.isFinite (0 : Float) = true := by decide
  have hone : Scalar.isFinite (1 : Float) = true := by decide
  have hfinite (signal : Option Signal) : (escapedLeaf signal).AllFinite :=
    { boxes := fun node hnode => by
        rw [List.mem_singleton.1 (Array.mem_toList_iff.2 hnode)]
        exact ⟨hzero, hzero, hone, hone⟩
      width := hone
      height := hone }
  refine ⟨hfinite none, hfinite (some .unknown), fun htext => ?_⟩
  have hnodes := ((jsonText_eq_iff_shows (hfinite _) (hfinite _)).1 htext).nodes
  simp [escapedLeaf] at hnodes

end Schematic
