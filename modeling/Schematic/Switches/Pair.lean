import Schematic.Error
import Schematic.Text.Blank

/-!
# Setting a switch in a word

A text such as `A=1` or `b = off` names a switch and its value: one letter, an equals sign, and
`1`, `true` or `on`, or `0`, `false` or `off` in letters of either case. There may be blanks
around the name and around the value.
-/

namespace Schematic.Switches

/-- The switch that a text names. -/
def name? (text : List Char) : Option Char :=
  match Text.trim text with
  | [letter] => if letter.isAlpha then some letter.toUpper else none
  | _ => none

/-- The value that a text names. -/
def value? (text : List Char) : Option Bool :=
  match String.ofList ((Text.trim text).map Char.toLower) with
  | "1" | "true" | "on" => some true
  | "0" | "false" | "off" => some false
  | _ => none

/-- The switch and the value that a text names, if it does. -/
def pair? (text : List Char) : Option (Char × Bool) :=
  match text.dropWhile (· ≠ '=') with
  | [] => none
  | _ :: value => do
    let name ← name? (text.takeWhile (· ≠ '='))
    let value ← value? value
    pure (name, value)

/-- Reads a switch and its value. -/
def readPair (text : String) : Except Error (Char × Bool) :=
  match pair? text.toList with
  | some pair => .ok pair
  | none => .error (.invalidAssignment text)

end Schematic.Switches
