import Schematic.Switches

/-!
# Calls on a table

The operations of a table of switches as calls, each with its answer, and the table after a list of
them.
-/

namespace Schematic.Switches

/-- An operation of a table. -/
inductive Call where
  /-- Looks a switch up. -/
  | get (name : Char)
  /-- Looks a switch up and switches it off, if it has no value yet. -/
  | settle (name : Char)
  /-- Gives a switch a value. -/
  | set (name : Char) (value : Bool)
  /-- Turns a switch over. -/
  | toggle (name : Char)
  /-- Takes all values away. -/
  | clear
  deriving DecidableEq, Repr

/-- What a call answers, and the table after it. -/
def perform (switches : Switches) : Call → Option Bool × Switches
  | .get name => (switches.get? name, switches)
  | .settle name => (some (switches.getD name), switches.settle name)
  | .set name value => (none, switches.set name value)
  | .toggle name => (some (!switches.getD name), switches.toggle name)
  | .clear => (none, ∅)

/-- The table after calls. -/
def after (switches : Switches) (calls : List Call) : Switches :=
  calls.foldl (fun switches call => (switches.perform call).2) switches

end Schematic.Switches
