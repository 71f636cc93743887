/-!
# JSON

Values of JSON and their compact text: no blanks, the fields of an object in the order they are
given. How a character stands in a string and how a real number is written is left open; a real
number that has no text becomes `null`. `escape` is the usual choice for characters.
-/

namespace Schematic

/-- A value of JSON over the real numbers `α`. -/
inductive Json (α : Type) where
  /-- Nothing. -/
  | null
  /-- A natural number. -/
  | natural (n : Nat)
  /-- A real number. -/
  | real (x : α)
  /-- A text. -/
  | string (text : String)
  /-- A list of values. -/
  | array (items : List (Json α))
  /-- Values under names, in the order given. -/
  | object (fields : List (String × Json α))

namespace Json

variable {α : Type}

/-- A value, or nothing. -/
def ofOption : Option (Json α) → Json α
  | some value => value
  | none => null

/-! ### Strings -/

/-- A digit of base sixteen. -/
def hexDigit (n : Nat) : Char :=
  if n < 10 then Char.ofNat ('0'.toNat + n) else Char.ofNat ('a'.toNat + (n - 10))

/-- A character as it stands in a string: the quote, the backslash and the control characters
are escaped. -/
def escape (c : Char) : List Char :=
  if c = '"' then ['\\', '"']
  else if c = '\\' then ['\\', '\\']
  else if c = '\x08' then ['\\', 'b']
  else if c = '\t' then ['\\', 't']
  else if c = '\n' then ['\\', 'n']
  else if c = '\x0c' then ['\\', 'f']
  else if c = '\r' then ['\\', 'r']
  else if c.toNat < 0x20 then
    ['\\', 'u', '0', '0', hexDigit (c.toNat / 16), hexDigit (c.toNat % 16)]
  else [c]

/-- A string with its quotes, by the way its characters are written. -/
def quote (text : String) (char : Char → List Char := escape) : List Char :=
  '"' :: (text.toList.flatMap char ++ ['"'])

/-! ### Texts -/

variable (char : Char → List Char) (real : α → Option (List Char))

mutual

/-- The text of a value. -/
def chars : Json α → List Char
  | null => "null".toList
  | natural n => (Nat.repr n).toList
  | .real x => (real x).getD "null".toList
  | string text => quote text char
  | array items => '[' :: (itemChars items ++ [']'])
  | object fields => '{' :: (fieldChars fields ++ ['}'])

/-- The texts of the values of a list, with commas between them. -/
def itemChars : List (Json α) → List Char
  | [] => []
  | [item] => chars item
  | item :: next :: items => chars item ++ ',' :: itemChars (next :: items)

/-- The texts of the fields of an object, with commas between them. -/
def fieldChars : List (String × Json α) → List Char
  | [] => []
  | [(name, value)] => quote name char ++ ':' :: chars value
  | (name, value) :: next :: fields =>
    quote name char ++ ':' :: chars value ++ ',' :: fieldChars (next :: fields)

end

end Json

end Schematic
