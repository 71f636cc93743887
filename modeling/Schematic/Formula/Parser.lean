import Schematic.Error
import Schematic.Formula
import Schematic.Token

/-!
# Reading a formula from tokens

The grammar, from the loosest operator to the tightest:

    disjunction  =  conjunction { '+' conjunction }
    conjunction  =  negation { '.' negation }
    negation     =  '!' negation  |  variable  |  '(' disjunction ')'

A chain of one operand is that operand, a longer one is a node with all its operands. The
tokens are read one by one by a machine that keeps, for every parenthesis still open, the
operands read so far. What a token does depends on the machine's state and on the token's kind
alone (`State.step`); positions come in only where a fault is reported (`run`).

Every `!` and every `(` counts as one level of nesting until what it governs is complete.
A parser goes on from where it stopped, with the levels that were open when it stopped, so it
can be run again after a fault.
-/

namespace Schematic

/-- How deep `!` and `(` may nest by default. -/
def Parser.defaultLimit : Nat := 256

/-- What would have been right in place of a token that is wrong. -/
inductive Parser.Wanted where
  /-- A variable or an opening parenthesis. -/
  | operand
  /-- A closing parenthesis. -/
  | closing
  /-- The end of the text. -/
  | ending
  deriving DecidableEq, Repr

/-- How a message names what is wanted. -/
def Parser.Wanted.text : Parser.Wanted → String
  | operand => "identifier or '('"
  | closing => "')'"
  | ending => "end of input"

/-- Why tokens are no formula. -/
inductive Parser.Fault where
  /-- A token that cannot stand where it does. -/
  | unexpected (position : Nat) (wanted : Parser.Wanted) (found : Token.Kind)
  /-- A `!` or `(` beyond the limit of nesting. -/
  | tooDeep (position limit : Nat)
  deriving DecidableEq, Repr

/-- The error that a fault is. -/
def Parser.Fault.toError : Parser.Fault → Error
  | unexpected position wanted found => .unexpectedToken position wanted.text found.text
  | tooDeep position limit => .nestingTooDeep position limit

namespace Parser

/-! ### Groups -/

/-- What has been read since a parenthesis was opened. -/
structure Group where
  /-- The finished operands of the disjunction, the last first. -/
  terms : List Formula
  /-- The finished operands of the conjunction being read, the last first. -/
  factors : List Formula
  /-- How many `!` stand before the operand being read. -/
  nots : Nat
  deriving Repr

/-- A chain of operands: the operand itself if there is one only. -/
def chain (build : List Formula → Formula) : List Formula → Formula
  | [operand] => operand
  | operands => build operands

/-- A formula under so many negations. -/
def negate : Nat → Formula → Formula
  | 0, f => f
  | count + 1, f => .not (negate count f)

namespace Group

/-- A group of which nothing has been read. -/
def empty : Group := ⟨[], [], 0⟩

/-- The group with one more `!`. -/
def addNot (group : Group) : Group := { group with nots := group.nots + 1 }

/-- The group after a variable or a parenthesis, which completes every `!` before it. -/
def addOperand (group : Group) (operand : Formula) : Group :=
  { group with factors := negate group.nots operand :: group.factors, nots := 0 }

/-- The conjunction being read. -/
def term (group : Group) : Formula := chain .and group.factors.reverse

/-- The group after a `+`. -/
def endTerm (group : Group) : Group :=
  { group with terms := group.term :: group.terms, factors := [] }

/-- The formula of a group that is complete. -/
def formula (group : Group) : Formula := chain .or (group.term :: group.terms).reverse

end Group

/-! ### The machine -/

/-- What the machine is to read next. -/
inductive Phase where
  /-- A variable, a `!` or an opening parenthesis. -/
  | operand
  /-- An operator, a closing parenthesis or the end. -/
  | operator
  deriving DecidableEq, Repr

/-- What the machine remembers of the tokens read. -/
structure State where
  /-- What is to be read next. -/
  phase : Phase
  /-- The innermost group that is open. -/
  group : Group
  /-- The groups around it, the innermost first. -/
  outer : List Group
  /-- How many `!` and `(` are open. -/
  depth : Nat
  deriving Repr

/-- What a token makes the machine do. -/
inductive Step where
  /-- It reads the token and goes on. -/
  | shift (state : State)
  /-- It has read a formula and leaves the token. -/
  | accept (formula : Formula)
  /-- It cannot read the token. -/
  | refuse (wanted : Wanted)
  /-- It reads the token, which opens one level too many. -/
  | overflow
  deriving Repr

namespace State

/-- The machine before its first token, with so many levels open from before. -/
def start (depth : Nat) : State := ⟨.operand, .empty, [], depth⟩

/-- The machine after an operand of the innermost group. -/
def addOperand (state : State) (operand : Formula) : State :=
  { state with
    phase := .operator
    group := state.group.addOperand operand
    depth := state.depth - state.group.nots }

/-- Opens a level, if the limit allows one more. -/
def descend (limit : Nat) (state inner : State) : Step :=
  if limit ≤ state.depth then .overflow else .shift { inner with depth := state.depth + 1 }

/-- What is wanted where an operator may stand, besides the operators. -/
def wantedAfterOperand (state : State) : Wanted :=
  if state.outer.isEmpty then .ending else .closing

/-- The formula that has been read when the end comes. -/
def finish (state : State) : Except Wanted Formula :=
  match state.phase, state.outer with
  | .operand, _ => .error .operand
  | .operator, _ :: _ => .error .closing
  | .operator, [] => .ok state.group.formula

/-- What a token of this kind makes the machine do. -/
def step (limit : Nat) (state : State) (kind : Token.Kind) : Step :=
  match state.phase, kind with
  | _, .endOfInput =>
    match state.finish with
    | .ok formula => .accept formula
    | .error wanted => .refuse wanted
  | .operand, .identifier name => .shift (state.addOperand (.ofLetter name))
  | .operand, .not => state.descend limit { state with group := state.group.addNot }
  | .operand, .openParen =>
    state.descend limit { state with group := .empty, outer := state.group :: state.outer }
  | .operand, _ => .refuse .operand
  | .operator, .and => .shift { state with phase := .operand }
  | .operator, .or => .shift { state with phase := .operand, group := state.group.endTerm }
  | .operator, .closeParen =>
    match state.outer with
    | [] => .refuse .ending
    | group :: outer =>
      .shift (addOperand ⟨.operator, group, outer, state.depth - 1⟩ state.group.formula)
  | .operator, _ => .refuse state.wantedAfterOperand

end State

end Parser

/-! ### Runs -/

/-- A place in a list of tokens, with the levels of nesting still open. -/
structure Parser where
  /-- The tokens from here on. -/
  rest : List Token
  /-- How many `!` and `(` are open. -/
  depth : Nat
  /-- How many may be. -/
  limit : Nat
  /-- Where the end stands, if the tokens do not say. -/
  endPosition : Nat
  deriving Repr

namespace Parser

/-- A parser before its first token. -/
def ofTokens (tokens : List Token) (limit : Nat) : Parser :=
  { rest := tokens
    depth := 0
    limit := limit
    endPosition := match tokens.getLast? with
      | some token => token.position + 1
      | none => 0 }

/-- Runs the machine over the tokens, and says what it found and where it stopped. When the
tokens run out, the end is read. -/
def run (limit endPosition : Nat) (state : State) :
    List Token → Except Fault Formula × List Token × Nat
  | [] =>
    (state.finish.mapError (.unexpected endPosition · .endOfInput), [], state.depth)
  | token :: rest =>
    match state.step limit token.kind with
    | .shift next => run limit endPosition next rest
    | .accept formula => (.ok formula, token :: rest, state.depth)
    | .refuse wanted =>
      (.error (.unexpected token.position wanted token.kind), token :: rest, state.depth)
    | .overflow => (.error (.tooDeep token.position limit), rest, state.depth)

/-- Reads a formula that ends where the tokens end. The parser returned stands where the
reading stopped: before the end, before a token that is wrong, or behind one that nests too
deep. -/
def parse (parser : Parser) : Except Fault Formula × Parser :=
  let (result, rest, depth) :=
    run parser.limit parser.endPosition (.start parser.depth) parser.rest
  (result, { parser with rest := rest, depth := depth })

end Parser

/-- The formula that tokens are. -/
def Formula.ofTokens (tokens : List Token) (limit : Nat) : Except Parser.Fault Formula :=
  (Parser.ofTokens tokens limit).parse.1

end Schematic
