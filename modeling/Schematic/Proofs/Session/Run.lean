import Schematic.Session

/-!
# Runs of a session

The operations of a session as commands, and the session after a list of them. A command answers
with an error or with a signal, if there is one.
-/

namespace Schematic.Session

/-- An operation of a session. -/
inductive Command where
  /-- Shows the formula that a text is. -/
  | setExpression (text : String)
  /-- Turns a switch over. -/
  | toggle (name : Char)
  /-- Gives a switch a value. -/
  | set (name : Char) (value : Bool)
  /-- Takes the values of all switches away. -/
  | reset
  deriving DecidableEq, Repr

variable {α : Type} [Scalar α]

/-- What a command answers, and the session after it. -/
def perform (session : Session α) : Command → Except Error (Option Signal) × Session α
  | .setExpression text => session.setExpression text
  | .toggle name => ((session.toggle name).1.map some, (session.toggle name).2)
  | .set name value => ((session.set name value).1.map some, (session.set name value).2)
  | .reset => (.ok session.reset.1, session.reset.2)

/-- The session after commands, of which any may have failed. -/
def after (session : Session α) (commands : List Command) : Session α :=
  commands.foldl (fun session command => (session.perform command).2) session

end Schematic.Session
