import Schematic.Decimal.Numeral

/-!
# Arguments of the command line

    [ options ] [ -- ] EXPR
    [ options ] -f FILE

Options may stand before and after the expression. A long option is given its value in the next
argument or after an equals sign; a short one in the next argument or right behind its letter,
with or without an equals sign, and short ones without values can be written together. A value in
an argument of its own does not start with a hyphen, unless it is nothing else. Every option but
`--set` is given at most once. What comes after `--` is not read as an option.

The arguments are read from left to right. A question for the version or for help is answered as
soon as it is read, so only what stands before it can be refused.
-/

namespace Schematic.CommandLine

/-! ### Options -/

/-- How a diagram is printed. -/
inductive Format where
  /-- As a listing. -/
  | text
  /-- As a document for a renderer. -/
  | json
  deriving DecidableEq, Repr

/-- An option that takes a value. -/
inductive Setting where
  /-- The file with the formula. -/
  | file
  /-- A switch and its value. -/
  | set
  /-- How the diagram is printed. -/
  | format
  /-- The distance between the nodes of a column. -/
  | gap
  /-- The distance between columns. -/
  | columnGap
  deriving DecidableEq, Repr

/-- An option that takes no value. -/
inductive Flag where
  /-- Letters are read one by one. -/
  | strict
  /-- The diagram is checked. -/
  | check
  /-- The steps are logged. -/
  | verbose
  deriving DecidableEq, Repr

/-- Why the reading of arguments ends early. -/
inductive Stop where
  /-- The arguments cannot be read. -/
  | refused
  /-- The version is asked for. -/
  | version
  /-- Help is asked for. -/
  | help
  deriving DecidableEq, Repr

/-- What an option asks for. -/
inductive Choice where
  /-- It takes a value. -/
  | setting (setting : Setting)
  /-- It takes none. -/
  | flag (flag : Flag)
  /-- It ends the reading. -/
  | stop (stop : Stop)
  deriving DecidableEq, Repr

/-- The option of a long name. -/
def longOption? (name : List Char) : Option Choice :=
  match String.ofList name with
  | "file" => some (.setting .file)
  | "set" => some (.setting .set)
  | "format" => some (.setting .format)
  | "gap" => some (.setting .gap)
  | "column-gap" => some (.setting .columnGap)
  | "strict" => some (.flag .strict)
  | "check" => some (.flag .check)
  | "verbose" => some (.flag .verbose)
  | "version" => some (.stop .version)
  | "help" => some (.stop .help)
  | _ => none

/-- The option of a letter. -/
def shortOption? : Char → Option Choice
  | 'f' => some (.setting .file)
  | 's' => some (.setting .set)
  | 'v' => some (.flag .verbose)
  | 'V' => some (.stop .version)
  | 'h' => some (.stop .help)
  | _ => none

/-! ### What has been read -/

/-- The arguments read so far. -/
structure Partial where
  /-- The formula. -/
  expression : Option String
  /-- The file with the formula. -/
  file : Option String
  /-- The switches and their values, in order. -/
  pairs : List String
  /-- How the diagram is printed. -/
  format : Option Format
  /-- The distance between the nodes of a column. -/
  gap : Option Float
  /-- The distance between columns. -/
  columnGap : Option Float
  /-- The flags given. -/
  flags : List Flag

namespace Partial

/-- Nothing has been read. -/
def empty : Partial := ⟨none, none, [], none, none, none, []⟩

/-- A value, if the one it takes the place of has not been given. -/
def once {β : Type} (old : Option β) (new : Option β) : Except Stop (Option β) :=
  match old, new with
  | none, some value => .ok (some value)
  | _, _ => .error .refused

/-- The format of a name. -/
def format? : String → Option Format
  | "text" => some .text
  | "json" => some .json
  | _ => none

/-- Takes the value of an option. -/
def assign (read : Partial) (setting : Setting) (value : List Char) : Except Stop Partial := do
  let text := String.ofList value
  match setting with
  | .file => pure { read with file := ← once read.file (if value.isEmpty then none else some text) }
  | .set => pure { read with pairs := read.pairs ++ [text] }
  | .format => pure { read with format := ← once read.format (format? text) }
  | .gap => pure { read with gap := ← once read.gap (Decimal.read? text) }
  | .columnGap => pure { read with columnGap := ← once read.columnGap (Decimal.read? text) }

/-- Takes a flag. -/
def raise (read : Partial) (flag : Flag) : Except Stop Partial :=
  if flag ∈ read.flags then .error .refused else .ok { read with flags := flag :: read.flags }

/-- Takes the formula. -/
def express (read : Partial) (value : List Char) : Except Stop Partial := do
  pure { read with expression := ← once read.expression (some (String.ofList value)) }

end Partial

/-! ### Reading -/

/-- Reads a long option, without its hyphens. What is returned beside the arguments is the option
that still lacks its value. -/
def readLong (read : Partial) (text : List Char) : Except Stop (Partial × Option Setting) := do
  let value := match text.dropWhile (· ≠ '=') with
    | [] => none
    | _ :: value => some value
  match longOption? (text.takeWhile (· ≠ '=')), value with
  | some (.setting setting), some value => pure (← read.assign setting value, none)
  | some (.setting setting), none => pure (read, some setting)
  | some (.flag flag), none => pure (← read.raise flag, none)
  | some (.stop stop), none => throw stop
  | _, _ => throw .refused

/-- Reads short options, without their hyphen. -/
def readShort (read : Partial) : List Char → Except Stop (Partial × Option Setting)
  | [] => pure (read, none)
  | letter :: text =>
    match shortOption? letter with
    | some (.flag flag) => do readShort (← read.raise flag) text
    | some (.stop stop) => throw stop
    | some (.setting setting) =>
      match text with
      | [] => pure (read, some setting)
      | '=' :: value => do pure (← read.assign setting value, none)
      | value => do pure (← read.assign setting value, none)
    | none => throw .refused

/-- Reads arguments from left to right. `lacking` is the option that still lacks its value. -/
def readAll (read : Partial) (lacking : Option Setting) :
    List (List Char) → Except Stop Partial
  | [] => if lacking.isSome then throw .refused else pure read
  | argument :: rest =>
    match lacking, argument with
    | some _, '-' :: _ :: _ => throw .refused
    | some setting, value => do readAll (← read.assign setting value) none rest
    | none, ['-', '-'] => rest.foldlM Partial.express read
    | none, '-' :: '-' :: text => do
      let (read, lacking) ← readLong read text
      readAll read lacking rest
    | none, '-' :: letter :: text => do
      let (read, lacking) ← readShort read (letter :: text)
      readAll read lacking rest
    | none, text => do readAll (← read.express text) none rest

/-! ### The result -/

/-- Where the formula comes from. -/
inductive Source where
  /-- It is given. -/
  | expression (text : String)
  /-- It stands in a file. -/
  | file (path : String)
  deriving DecidableEq, Repr

/-- What a run of the program is asked to do. -/
structure Arguments where
  /-- Where the formula comes from. -/
  source : Source
  /-- The switches and their values, in order. -/
  pairs : List String
  /-- Letters are read one by one. -/
  strict : Bool
  /-- How the diagram is printed. -/
  format : Format
  /-- The distance between the nodes of a column. -/
  gap : Float
  /-- The distance between columns. -/
  columnGap : Float
  /-- The diagram is checked before it is printed. -/
  check : Bool
  /-- The steps are logged. -/
  verbose : Bool

/-- The source of the formula, if there is exactly one. -/
def Partial.source (read : Partial) : Except Stop Source :=
  match read.expression, read.file with
  | some text, none => .ok (.expression text)
  | none, some path => .ok (.file path)
  | _, _ => .error .refused

/-- Reads the arguments of a run. -/
def Arguments.read (arguments : List String) : Except Stop Arguments := do
  let read ← readAll .empty none (arguments.map String.toList)
  let source ← read.source
  pure
    { source := source
      pairs := read.pairs
      strict := .strict ∈ read.flags
      format := read.format.getD .text
      gap := read.gap.getD 30
      columnGap := read.columnGap.getD 70
      check := .check ∈ read.flags
      verbose := .verbose ∈ read.flags }

end Schematic.CommandLine
