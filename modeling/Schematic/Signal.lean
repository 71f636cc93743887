/-!
# Signals

What a wire carries: low, high, or nothing known yet.
-/

namespace Schematic

/-- What a node puts out and a wire carries. -/
inductive Signal where
  /-- False. -/
  | low
  /-- True. -/
  | high
  /-- It depends on a switch that has no value yet. -/
  | unknown
  deriving DecidableEq, Repr, Inhabited

namespace Signal

/-- The signal of a truth value. -/
def ofBool : Bool → Signal
  | true => high
  | false => low

/-- The truth value of a signal, where it is known. -/
def toBool? : Signal → Option Bool
  | low => some false
  | high => some true
  | unknown => none

/-- The signal is low or high. -/
def isKnown (signal : Signal) : Bool := signal != unknown

/-- The complement; what is unknown stays unknown. -/
def invert : Signal → Signal
  | low => high
  | high => low
  | unknown => unknown

@[simp] theorem invert_invert (signal : Signal) : signal.invert.invert = signal := by
  cases signal <;> rfl

@[simp] theorem toBool?_ofBool (value : Bool) : (ofBool value).toBool? = some value := by
  cases value <;> rfl

/-- How a listing shows a signal. -/
def text : Signal → String
  | low => "0"
  | high => "1"
  | unknown => "?"

/-- The name a renderer knows a signal by. -/
def word : Signal → String
  | low => "false"
  | high => "true"
  | unknown => "unknown"

end Signal

end Schematic
