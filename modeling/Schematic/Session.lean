import Schematic.Evaluation
import Schematic.Formula.Reading
import Schematic.Formula.Walk
import Schematic.Layout
import Schematic.Text.Blank

/-!
# Sessions

One diagram on show and its switches. Showing another formula draws a new diagram; the switches
keep their values until they are reset. An operation that fails changes nothing.
-/

namespace Schematic

/-- A diagram on show, and its switches. -/
structure Session (α : Type) where
  /-- How diagrams are laid out. -/
  settings : Settings α
  /-- How formulas are read. -/
  spelling : Spelling
  /-- The diagram on show, if there is one, evaluated. -/
  diagram : Option (Diagram α)
  /-- The switches. -/
  switches : Switches

namespace Session

variable {α : Type} [Scalar α]

/-- A session that shows nothing. -/
def new (settings : Settings α) (spelling : Spelling) : Session α :=
  ⟨settings, spelling, none, ∅⟩

instance : Inhabited (Session α) := ⟨new .default .keywords⟩

/-! ### Questions -/

/-- What the diagram on show puts out. -/
def output? (session : Session α) : Option Signal := session.diagram.bind Diagram.output?

/-- The formula on show. -/
def formula? (session : Session α) : Option Formula := session.diagram.map Diagram.formula

/-- The variables of the formula on show, in rising order. -/
def variableNames (session : Session α) : List Char :=
  (session.formula?.map Formula.variableNames).getD []

/-! ### Operations -/

/-- Shows a diagram, evaluated with the switches. -/
def showDiagram (session : Session α) (diagram : Diagram α) : Signal × Session α :=
  let (evaluated, switches) := diagram.evaluate session.switches
  (evaluated.output, { session with diagram := some evaluated, switches := switches })

/-- Evaluates the diagram on show again. -/
def refresh (session : Session α) : Option Signal × Session α :=
  match session.diagram with
  | none => (none, session)
  | some diagram =>
    let (output, session) := session.showDiagram diagram
    (some output, session)

/-- Shows the formula that a text is; a blank text clears the diagram. -/
def setExpression (session : Session α) (text : String) :
    Except Error (Option Signal) × Session α :=
  if Text.isAllBlank text then (.ok none, { session with diagram := none })
  else
    match Formula.read text session.spelling with
    | .error error => (.error error, session)
    | .ok formula =>
      let (output, session) := session.showDiagram (formula.layout session.settings)
      (.ok (some output), session)

/-- Changes the switches, if the diagram has the variable, and evaluates the diagram again. -/
def change (session : Session α) (name : Char) (alter : Switches → Switches) :
    Except Error Signal × Session α :=
  match session.diagram with
  | none => (.error (.unknownVariable name.toUpper), session)
  | some diagram =>
    if diagram.hasVariable name then
      let (output, session) :=
        { session with switches := alter session.switches }.showDiagram diagram
      (.ok output, session)
    else (.error (.unknownVariable name.toUpper), session)

/-- Turns a switch over. -/
def toggle (session : Session α) (name : Char) : Except Error Signal × Session α :=
  session.change name (·.toggle name)

/-- Gives a switch a value. -/
def set (session : Session α) (name : Char) (value : Bool) : Except Error Signal × Session α :=
  session.change name (·.set name value)

/-- Takes the values of all switches away. -/
def reset (session : Session α) : Option Signal × Session α :=
  { session with switches := ∅ }.refresh

end Session

end Schematic
