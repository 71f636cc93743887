import Schematic.Diagram.Listing
import Schematic.Proofs.Decimal.Numeral

/-!
# What a listing says

A listing described by its lines and not by the way they are made: the formula, the head of the
table, for every node a line with its texts in their columns, and the output (`Diagram.Lists`). A
text that is shorter than its column is filled up with blanks, and a number is the whole number next
to it. A diagram has one listing only (`Diagram.lists_iff`).
-/

namespace Schematic

/-! ### Columns -/

namespace Text

/-- The side of its column at which a text stands. -/
inductive Side where
  | left
  | right

/-- A column of a table. -/
structure Column where
  /-- Where its texts stand. -/
  side : Side
  /-- How wide it is. -/
  width : Nat

/-- Blanks that fill a text up to a width. A text that is longer needs none. -/
structure Fills (width : Nat) (text blanks : String) : Prop where
  /-- They are blanks. -/
  blank : ∀ c ∈ blanks.toList, c = ' '
  /-- The width is reached. -/
  length : text.length + blanks.length = max width text.length

/-- A text in its column, with the blanks on the other side. -/
inductive Field : Column → String → String → Prop where
  /-- The text stands at the left. -/
  | left {width : Nat} {text blanks : String} : Fills width text blanks →
    Field ⟨.left, width⟩ text (text ++ blanks)
  /-- The text stands at the right. -/
  | right {width : Nat} {text blanks : String} : Fills width text blanks →
    Field ⟨.right, width⟩ text (blanks ++ text)

/-- A line of a table: texts in their columns, with one blank between two of them. -/
inductive Line : List Column → List String → String → Prop where
  /-- The last column. -/
  | last {column : Column} {text field : String} : Field column text field →
    Line [column] [text] field
  /-- A column before others. -/
  | cons {column : Column} {columns : List Column} {text field rest : String}
    {texts : List String} : Field column text field → Line columns texts rest →
    Line (column :: columns) (text :: texts) (field ++ " " ++ rest)

/-- A text made as wide as its column. -/
def Column.pad (column : Column) (text : String) : String :=
  match column.side with
  | .left => padRight column.width text
  | .right => padLeft column.width text

theorem fills_iff {width : Nat} {text blanks : String} :
    Fills width text blanks ↔ blanks = padding width text := by
  constructor
  · rintro ⟨hblank, hlength⟩
    have hcount : blanks.toList.length = width - text.length := by
      rw [String.length_toList]
      omega
    rw [padding, ← List.eq_replicate_iff.2 ⟨hcount, hblank⟩, String.ofList_toList]
  · rintro rfl
    constructor
    · intro c hc
      rw [padding, String.toList_ofList] at hc
      exact List.eq_of_mem_replicate hc
    · rw [padding, String.length_ofList, List.length_replicate]
      omega

theorem field_iff {column : Column} {text field : String} :
    Field column text field ↔ field = column.pad text := by
  constructor
  · rintro (h | h) <;> rw [fills_iff.1 h] <;> rfl
  · rintro rfl
    obtain ⟨side, width⟩ := column
    cases side with
    | left => exact .left (fills_iff.2 rfl)
    | right => exact .right (fills_iff.2 rfl)

theorem line_iff {column : Column} {columns : List Column} {text line : String}
    {texts : List String} (h : columns.length = texts.length) :
    Line (column :: columns) (text :: texts) line ↔
      line = " ".intercalate (List.zipWith Column.pad (column :: columns) (text :: texts)) := by
  induction columns generalizing column text texts line with
  | nil =>
    cases texts with
    | cons => cases h
    | nil =>
      rw [List.zipWith_cons_cons, List.zipWith_nil_left, String.intercalate_singleton, ← field_iff]
      constructor
      · rintro (hfield | ⟨-, ⟨⟩⟩)
        exact hfield
      · exact .last
  | cons next columns ih =>
    cases texts with
    | nil => cases h
    | cons other texts =>
      have hrest {rest : String} := @ih next other rest texts (Nat.succ.inj h)
      rw [List.zipWith_cons_cons, List.zipWith_cons_cons, String.intercalate_cons_cons,
        ← List.zipWith_cons_cons]
      constructor
      · rintro (- | ⟨hfield, hline⟩)
        rw [field_iff.1 hfield, hrest.1 hline]
      · rintro rfl
        exact .cons (field_iff.2 rfl) (hrest.2 rfl)

end Text

/-! ### Numbers -/

namespace Decimal

/-- The whole number next to a quotient: no other one is closer, and if another one is as close, it
is odd. -/
structure Nearest (num den nearest : Nat) : Prop where
  /-- It is not more than a half above. -/
  low : 2 * nearest * den ≤ 2 * num + den
  /-- It is not more than a half below. -/
  high : 2 * num ≤ 2 * nearest * den + den
  /-- An odd number is closer than a half. -/
  odd : nearest % 2 = 1 → 2 * nearest * den < 2 * num + den ∧ 2 * num < 2 * nearest * den + den

theorem nearest_roundDiv {num den : Nat} (hden : 0 < den) :
    Nearest num den (roundDiv num den) := by
  have hdiv : den * (num / den) + num % den = num := Nat.div_add_mod num den
  have hmod : num % den < den := Nat.mod_lt num hden
  rw [roundDiv]
  generalize num / den = quotient, num % den = rest at *
  have hnext : 2 * (quotient + 1) * den = 2 * (den * quotient) + 2 * den := by ring
  have hsame : 2 * quotient * den = 2 * (den * quotient) := by ring
  split
  · constructor <;> omega
  · constructor <;> omega

theorem nearest_iff {num den nearest : Nat} (hden : 0 < den) :
    Nearest num den nearest ↔ nearest = roundDiv num den := by
  constructor
  · rintro ⟨hlow, hhigh, hodd⟩
    exact (roundDiv_eq hlow hhigh hodd hden).symm
  · rintro rfl
    exact nearest_roundDiv hden

/-- A floating-point number as a whole number. The sign of what rounds to nothing stays. -/
inductive Whole (x : Float) : String → Prop where
  /-- It is no number. -/
  | notANumber : Double.ofFloat x = .notANumber → Whole x "NaN"
  /-- It is above all numbers. -/
  | above : Double.ofFloat x = .infinite false → Whole x "inf"
  /-- It is below all numbers. -/
  | below : Double.ofFloat x = .infinite true → Whole x "-inf"
  /-- It is rounded. -/
  | finite {negative : Bool} {units nearest : Nat} : Double.ofFloat x = .finite negative units →
    Nearest units unitsPerOne nearest →
    Whole x ((if negative then "-" else "") ++ Nat.repr nearest)

theorem fixed_zero_of_finite {x : Float} {negative : Bool} {units : Nat}
    (h : Double.ofFloat x = .finite negative units) :
    fixed 0 x = (if negative then "-" else "") ++ Nat.repr (roundDiv units unitsPerOne) := by
  rw [fixed, h]
  simp only [pointed, Nat.pow_eq, Nat.pow_zero, Nat.mul_one, Nat.div_one, if_true]

theorem whole_iff {x : Float} {text : String} : Whole x text ↔ text = fixed 0 x := by
  constructor
  · rintro (h | h | h | ⟨h, hnearest⟩)
    · rw [fixed, h]
    · rw [fixed, h]
      rfl
    · rw [fixed, h]
      rfl
    · rw [fixed_zero_of_finite h, (nearest_iff unitsPerOne_pos).1 hnearest]
  · rintro rfl
    cases h : Double.ofFloat x with
    | notANumber =>
      rw [fixed, h]
      exact .notANumber h
    | infinite negative =>
      rw [fixed, h]
      cases negative with
      | false => exact .above h
      | true => exact .below h
    | finite negative units =>
      rw [fixed_zero_of_finite h]
      exact .finite h (nearest_roundDiv unitsPerOne_pos)

end Decimal

/-! ### Lines -/

/-- What stands for a signal. -/
inductive Signal.Mark : Option Signal → String → Prop where
  /-- It is low. -/
  | low : Mark (some .low) "0"
  /-- It is high. -/
  | high : Mark (some .high) "1"
  /-- It depends on a switch without a value. -/
  | unknown : Mark (some .unknown) "?"
  /-- It has not been worked out. -/
  | none : Mark none "-"

theorem Signal.mark_iff {signal : Option Signal} {text : String} :
    Mark signal text ↔ text = listed signal := by
  constructor
  · rintro (- | - | - | -) <;> rfl
  · rintro rfl
    rcases signal with - | - | - | -
    · exact .none
    · exact .low
    · exact .high
    · exact .unknown

/-- The texts in the line of a node: its number, the key of its gate, its label, its level, where it
stands, how large it is and its signal. -/
inductive Node.Texts (node : Node Float) : List String → Prop where
  /-- Positions and sizes are whole. -/
  | mk {x y width height signal : String} : Decimal.Whole node.box.x x →
    Decimal.Whole node.box.y y → Decimal.Whole node.box.width width →
    Decimal.Whole node.box.height height → Signal.Mark node.signal signal →
    Texts node
      ["n" ++ Nat.repr node.id, node.operation.gate.key, node.label, Nat.repr node.level,
        "(" ++ x ++ ", " ++ y ++ ")", width ++ "x" ++ height, signal]

namespace Diagram

/-- The columns of the table. -/
def columns : List Text.Column :=
  [⟨.left, 5⟩, ⟨.left, 4⟩, ⟨.left, 5⟩, ⟨.right, 5⟩, ⟨.right, 15⟩, ⟨.right, 15⟩, ⟨.right, 3⟩]

/-- The lines of a diagram's listing. -/
inductive Lists (diagram : Diagram Float) : List String → Prop where
  /-- The formula, the head of the table, a line for every node, and the output. -/
  | mk {heading output : String} {rows : List String} :
    Text.Line columns ["id", "kind", "label", "level", "position", "size", "sig"] heading →
    List.Forall₂ (fun node row => ∃ texts, Node.Texts node texts ∧ Text.Line columns texts row)
      diagram.nodes.toList rows →
    Signal.Mark diagram.output? output →
    Lists diagram (diagram.formula.text :: heading :: rows ++ ["output = " ++ output])

theorem line_columns_iff {id gate label level position size signal line : String} :
    Text.Line columns [id, gate, label, level, position, size, signal] line ↔
      line = row id gate label level position size signal :=
  Text.line_iff rfl

end Diagram

theorem Node.row_eq (node : Node Float) :
    node.row = Diagram.row ("n" ++ Nat.repr node.id) node.operation.gate.key node.label
      (Nat.repr node.level)
      ("(" ++ Decimal.fixed 0 node.box.x ++ ", " ++ Decimal.fixed 0 node.box.y ++ ")")
      (Decimal.fixed 0 node.box.width ++ "x" ++ Decimal.fixed 0 node.box.height)
      (Signal.listed node.signal) := by
  rfl

theorem Node.line_iff {node : Node Float} {line : String} :
    (∃ texts, node.Texts texts ∧ Text.Line Diagram.columns texts line) ↔ line = node.row := by
  constructor
  · rintro ⟨-, ⟨hx, hy, hwidth, hheight, hsignal⟩, hline⟩
    rw [Diagram.line_columns_iff, Decimal.whole_iff.1 hx, Decimal.whole_iff.1 hy,
      Decimal.whole_iff.1 hwidth, Decimal.whole_iff.1 hheight, Signal.mark_iff.1 hsignal] at hline
    rw [hline, row_eq]
  · rintro rfl
    refine ⟨_, ⟨Decimal.whole_iff.2 rfl, Decimal.whole_iff.2 rfl, Decimal.whole_iff.2 rfl,
      Decimal.whole_iff.2 rfl, Signal.mark_iff.2 rfl⟩, Diagram.line_columns_iff.2 node.row_eq⟩

/-- A diagram has one listing. -/
theorem Diagram.lists_iff {diagram : Diagram Float} {lines : List String} :
    diagram.Lists lines ↔ lines = diagram.listing := by
  have hrows {rows : List String} : List.Forall₂ (fun node row => ∃ texts, Node.Texts node texts ∧
      Text.Line columns texts row) diagram.nodes.toList rows ↔
        rows = diagram.nodes.toList.map Node.row :=
    Json.forall₂_iff_eq_map fun node _ _ => node.line_iff
  constructor
  · rintro ⟨hheading, hlines, houtput⟩
    rw [line_columns_iff.1 hheading, hrows.1 hlines, Signal.mark_iff.1 houtput]
    rfl
  · rintro rfl
    exact .mk (line_columns_iff.2 rfl) (hrows.2 rfl) (Signal.mark_iff.2 rfl)

end Schematic
