import Schematic.Text.Blank
import Schematic.Signal
import Schematic.Gate
import Schematic.Error
import Schematic.Token
import Schematic.Token.Lexer
import Schematic.Formula
import Schematic.Formula.Walk
import Schematic.Formula.Printer
import Schematic.Formula.Parser
import Schematic.Formula.Reading
import Schematic.Scalar
import Schematic.Scalar.Rational
import Schematic.Levels
import Schematic.Diagram.Node
import Schematic.Diagram.Origin
import Schematic.Diagram
import Schematic.Layout.Settings
import Schematic.Layout.Numbering
import Schematic.Layout.Metrics
import Schematic.Layout.Placement
import Schematic.Layout
import Schematic.Decimal.Double
import Schematic.Decimal.Places
import Schematic.Decimal.Shortest
import Schematic.Decimal.Numeral
import Schematic.Decimal.Written
import Schematic.Json
import Schematic.Text.Padded
import Schematic.Diagram.Document
import Schematic.Diagram.Validity
import Schematic.Diagram.Listing
import Schematic.Text.Letter
import Schematic.Switches
import Schematic.Switches.Pair
import Schematic.Switches.Call
import Schematic.Evaluation
import Schematic.Compile
import Schematic.Session
import Schematic.Session.Page
import Schematic.CommandLine.Arguments
import Schematic.CommandLine.Directory
import Schematic.CommandLine.Run
import Schematic.Main
import Schematic.Proofs.Parser.Grammar
import Schematic.Proofs.Parser.Machine
import Schematic.Proofs.Parser.Soundness
import Schematic.Proofs.Parser.Completeness
import Schematic.Proofs.Parser.Language
import Schematic.Proofs.Formula.Canonical
import Schematic.Proofs.Formula.RoundTrip
import Schematic.Proofs.Formula.PreOrder
import Schematic.Proofs.Layout.Nodes
import Schematic.Proofs.Evaluation.Kleene
import Schematic.Proofs.Evaluation.Progress
import Schematic.Proofs.Evaluation.Visit
import Schematic.Proofs.Evaluation.Frame
import Schematic.Proofs.Evaluation.Layout
import Schematic.Proofs.Evaluation.Settled
import Schematic.Proofs.Session.Current
import Schematic.Proofs.Layout.Arena
import Schematic.Proofs.Session.Failure
import Schematic.Proofs.Formula.Reading
import Schematic.Proofs.Session.History
import Schematic.Proofs.Session.Switching
import Schematic.Proofs.Layout.Columns
import Schematic.Proofs.Layout.Separation
import Schematic.Proofs.Layout.Sweep
import Schematic.Proofs.Layout.Canvas
import Schematic.Proofs.Diagram.Validity
import Schematic.Proofs.Diagram.Faults
import Schematic.Proofs.Diagram.Changes
import Schematic.Proofs.Layout.Validity
import Schematic.Proofs.Formula.Height
import Schematic.Proofs.Evaluation.Acyclic
import Schematic.Proofs.Evaluation.Rearrangement
import Schematic.Proofs.Evaluation.Recursion
import Schematic.Proofs.Evaluation.Monotone
import Schematic.Proofs.Layout.Origin
import Schematic.Proofs.Layout.Levels
import Schematic.Proofs.Layout.Shape
import Schematic.Proofs.Layout.Wires
import Schematic.Proofs.Layout.Spread
import Schematic.Proofs.Token.Scan
import Schematic.Proofs.Token.Lexical
import Schematic.Proofs.Token.Pulling
import Schematic.Proofs.Token.Spellings
import Schematic.Proofs.Token.Spacing
import Schematic.Proofs.Parser.Faults
import Schematic.Proofs.Parser.Limit
import Schematic.Proofs.Formula.Unrolling
import Schematic.Proofs.Parser.Height
import Schematic.Proofs.Parser.Calls
import Schematic.Proofs.Evaluation.Repetition
import Schematic.Proofs.Evaluation.Order
import Schematic.Proofs.Layout.Centring
import Schematic.Proofs.Layout.Leaves
import Schematic.Proofs.Layout.Balance
import Schematic.Proofs.Session.Reloading
import Schematic.Proofs.Text.Trimming
import Schematic.Proofs.Switches.Pair
import Schematic.Proofs.Diagram.Listing
import Schematic.Proofs.Diagram.Rendering
import Schematic.Proofs.CommandLine.Stages
import Schematic.Proofs.Layout.Decisions
import Schematic.Proofs.Layout.Translation
import Schematic.Proofs.Layout.Margins
import Schematic.Proofs.Formula.Traversal
import Schematic.Proofs.Switches.Replay
import Schematic.Proofs.Json
import Schematic.Proofs.Decimal.Double
import Schematic.Proofs.Decimal.Rounding
import Schematic.Proofs.Decimal.Numeral
import Schematic.Proofs.Decimal.Shortest
import Schematic.Proofs.Decimal.Written
import Schematic.Proofs.Diagram.Document
