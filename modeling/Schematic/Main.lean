import Schematic.CommandLine.Directory
import Schematic.CommandLine.Run

/-!
# The program

Reads the file that the arguments name, if they name one, and prints the outcome of the run.
-/

namespace Schematic.CommandLine

/-- Why the system could not read a file, from the number of its error. Some errors come with
their numbers negated. -/
def reasonOfCode (code : UInt32) (details : String) : String :=
  let number := if code < 0x80000000 then code else 0 - code
  match number.toNat with
  | 2 => Unreadable.missing.reason
  | 20 => Unreadable.notADirectory.reason
  | 21 => Unreadable.isADirectory.reason
  | 36 => Unreadable.nameTooLong.reason
  | 13 => "Permission denied (os error 13)"
  | number => s!"{details} (os error {number})"

/-- Why the system could not read a file. -/
def reasonOf : IO.Error → String
  | .noFileOrDirectory _ code details => reasonOfCode code details
  | .inappropriateType _ code details => reasonOfCode code details
  | .permissionDenied _ code details => reasonOfCode code details
  | .invalidArgument _ code details => reasonOfCode code details
  | .otherError code details => reasonOfCode code details
  | other => toString other

/-- What stands in a file of the system. -/
def readSystemFile (path : String) : IO (Except String String) := do
  try
    let contents ← IO.FS.readBinFile path
    pure ((Directory.text contents).mapError Unreadable.reason)
  catch error => pure (.error (reasonOf error))

/-- Reads the file that the arguments name. -/
def fetchSystemFile (arguments : List String) : IO (Except String String) :=
  match Arguments.read arguments with
  | .ok { source := .file path, .. } => readSystemFile path
  | _ => pure (.error "")

/-- The line of a step, without the time. -/
def Event.line : Event → String
  | laidOut nodes wires width height =>
    s!"DEBUG laid out diagram nodes={nodes} edges={wires} width={width} height={height}\n"
  | evaluated output nodes => s!"DEBUG evaluated diagram output={output.text} nodes={nodes}\n"

/-- Prints an outcome, and gives its exit code. -/
def report (outcome : Outcome) : IO UInt32 := do
  IO.print outcome.output
  IO.eprint (outcome.stderr Event.line)
  pure outcome.code.toUInt32

end Schematic.CommandLine

/-- Runs the program. -/
def main (arguments : List String) : IO UInt32 := do
  let contents ← Schematic.CommandLine.fetchSystemFile arguments
  Schematic.CommandLine.report (Schematic.CommandLine.outcome arguments fun _ => contents)
