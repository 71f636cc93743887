import Schematic.CommandLine.Arguments
import Schematic.Compile
import Schematic.Diagram.Document
import Schematic.Diagram.Listing
import Schematic.Diagram.Validity
import Schematic.Evaluation
import Schematic.Switches.Pair

/-!
# A run of the command line

The formula is fetched, the switches are read, the diagram is compiled, checked if that is asked
for, evaluated and printed, in this order; the first stage that fails ends the run. Nothing is
printed unless every stage succeeds. Two steps are logged, and the log is shown if that is asked
for; how the line of a step is written, with the time and its place, is left open.
-/

namespace Schematic.CommandLine

/-! ### The log -/

/-- A step that is logged. -/
inductive Event where
  /-- A diagram has been laid out. -/
  | laidOut (nodes wires : Nat) (width height : Float)
  /-- A diagram has been evaluated. -/
  | evaluated (output : Signal) (nodes : Nat)
  deriving Repr

/-- What can fail, and logs its steps. -/
abbrev Logged := ExceptT Error (StateM (List Event))

/-- Logs a step. -/
def log (event : Event) : Logged Unit := modify (· ++ [event])

/-! ### Outcomes -/

/-- What a run leaves behind. -/
structure Outcome where
  /-- The exit code. -/
  code : Nat
  /-- What has been printed. -/
  output : String
  /-- The steps that are shown. -/
  log : List Event
  /-- What has been reported. -/
  errors : String
  deriving Repr

/-- What is written beside the output: the steps, and behind them what has been reported. `line`
writes the line of a step. -/
def Outcome.stderr (outcome : Outcome) (line : Event → String) : String :=
  String.join (outcome.log.map line) ++ outcome.errors

/-- The name and number of the program. -/
def version : String := "logicdraw_core 0.1.0"

/-- How the program is used. -/
def usage : String :=
  "Usage: logicdraw [OPTIONS] <EXPR|--file <FILE>>

Options:
  -f, --file <FILE>              Read the expression from a file instead
  -s, --set <NAME=VALUE>         Input value, repeatable (A=1, b=false)
      --strict                   Only accept symbols (!, ., +) with single-letter variables
      --format <FORMAT>          Output format [default: text] [possible values: text, json]
      --gap <GAP>                Base vertical gap between nodes in a column [default: 30]
      --column-gap <COLUMN_GAP>  Horizontal gap between columns [default: 70]
      --check                    Verify layout invariants before printing
  -v, --verbose                  Log pipeline steps to stderr
  -h, --help                     Print help
  -V, --version                  Print version"

/-- The text of lines. -/
def unlines (lines : List String) : String := String.join (lines.map (· ++ "\n"))

namespace Arguments

/-- How the formula is read. -/
def spelling (arguments : Arguments) : Spelling :=
  if arguments.strict then .symbolic else .keywords

/-- How the diagram is laid out. -/
def settings (arguments : Arguments) : Settings Float :=
  (Settings.default.withRowGap arguments.gap).withColumnGap arguments.columnGap

/-- The text of the formula. `file` says what stands in a file, or why it cannot be read. -/
def fetch (arguments : Arguments) (file : String → Except String String) : Except Error String :=
  match arguments.source with
  | .expression text => .ok text
  | .file path => (file path).mapError (.unreadableFile path)

/-- The switches, as the texts set them one after the other. -/
def switches (arguments : Arguments) : Except Error Switches := do
  let pairs ← arguments.pairs.mapM Switches.readPair
  pure (Switches.ofList pairs)

/-- What is printed for a diagram. -/
def print (arguments : Arguments) (diagram : Diagram Float) : List String :=
  match arguments.format with
  | .text => diagram.listing
  | .json => [diagram.jsonText]

/-- The lines that are printed, or the error of the first stage that fails. -/
def run (arguments : Arguments) (file : String → Except String String) :
    Logged (List String) := do
  let text ← arguments.fetch file
  let switches ← arguments.switches
  let diagram ← compile text arguments.spelling arguments.settings
  log (.laidOut diagram.nodes.size diagram.wires.size diagram.width diagram.height)
  if arguments.check then diagram.validate arguments.settings
  let (diagram, _) := diagram.evaluate switches
  log (.evaluated diagram.output diagram.nodes.size)
  pure (arguments.print diagram)

end Arguments

/-- The outcome of a run with the steps it logs. -/
def Outcome.ofResult (log : List Event) : Except Error (List String) → Outcome
  | .ok lines => ⟨0, unlines lines, log, ""⟩
  | .error error => ⟨1, "", log, unlines ["Error: " ++ error.message]⟩

/-- The outcome of a run. Its steps are shown if that is asked for. -/
def Arguments.outcome (arguments : Arguments) (file : String → Except String String) : Outcome :=
  let (result, events) := (arguments.run file).run.run []
  .ofResult (if arguments.verbose then events else []) result

/-- The outcome of arguments that start no run. -/
def Outcome.ofStop : Stop → Outcome
  | .refused => ⟨2, "", [], unlines [usage]⟩
  | .version => ⟨0, unlines [version], [], ""⟩
  | .help => ⟨0, unlines [usage], [], ""⟩

/-- The outcome of the program with the given arguments. -/
def outcome (arguments : List String) (file : String → Except String String) : Outcome :=
  match Arguments.read arguments with
  | .error stop => .ofStop stop
  | .ok arguments => arguments.outcome file

end Schematic.CommandLine
