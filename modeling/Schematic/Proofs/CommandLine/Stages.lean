import Schematic.CommandLine.Run
import Schematic.Proofs.Diagram.Listing
import Schematic.Proofs.Diagram.Rendering
import Schematic.Proofs.Evaluation.Layout
import Schematic.Proofs.Formula.Reading
import Schematic.Proofs.Switches.Pair
import Schematic.Proofs.Token.Lexical

/-!
# The stages of a run

A run goes through six stages that can fail, always in the same order (`Stage.all`). One stage in
front of a computation fails where the stage does, and otherwise where the computation does
(`bind_eq_error_iff_failsFirst`); so a run fails with the error of its first stage that fails, and
what it has logged by then depends only on whether that is the check (`Arguments.run_eq`,
`Arguments.drawn_eq_error_iff`). A run without such a stage prints the diagram of its formula, with
the values that the switches have after the last text that sets each of them
(`Arguments.exists_draws`). Together these say what is seen of every run
(`Arguments.ends_by_stages`).
-/

namespace Schematic.CommandLine

open Switches (FirstRefused LastSet)

/-- A stage of a run that can fail. -/
inductive Stage where
  /-- The text of the formula is fetched. -/
  | source
  /-- The switches are read. -/
  | switches
  /-- A text of blanks is refused. -/
  | blank
  /-- The text is cut into tokens. -/
  | tokens
  /-- The tokens are read. -/
  | formula
  /-- The diagram is checked. -/
  | check
  deriving DecidableEq, Repr

/-- The stages, in order. -/
def Stage.all : List Stage := [.source, .switches, .blank, .tokens, .formula, .check]

/-- The stages before the diagram is laid out, in order. -/
def Stage.early : List Stage := [.source, .switches, .blank, .tokens, .formula]

theorem Stage.all_eq : all = early ++ [.check] := rfl

theorem Stage.mem_early_or_eq_check (stage : Stage) : stage ∈ early ∨ stage = .check := by
  cases stage <;> decide

namespace Arguments

/-! ### What is asked for -/

/-- The gap that is kept: the one that is given, if there is any. -/
inductive Keeps (given : Float) : Float → Prop where
  /-- It is more than nothing. -/
  | given : 0 < given → Keeps given given
  /-- It is nothing, less than nothing or no number. -/
  | nothing : ¬ 0 < given → Keeps given 0

/-- The spelling and the settings that arguments ask for. -/
structure Asks (arguments : Arguments) (spelling : Spelling) (settings : Settings Float) :
    Prop where
  /-- Only symbols are read if that is asked for, and words otherwise. -/
  symbolic_iff : spelling = .symbolic ↔ arguments.strict = true
  /-- The nodes of a column keep the gap that is given. -/
  rowGap : Keeps arguments.gap settings.rowGap
  /-- So do the columns. -/
  columnGap : Keeps arguments.columnGap settings.columnGap
  /-- The other settings are the usual ones. -/
  others : settings =
    { Settings.default with rowGap := settings.rowGap, columnGap := settings.columnGap }

theorem keeps_iff {given kept : Float} :
    Keeps given kept ↔ kept = Scalar.larger Scalar.zero given := by
  have hzero : Scalar.isNumber (Scalar.zero : Float) = true := by decide
  have hlarger : Scalar.larger Scalar.zero given = if 0 < given then given else 0 := by
    simp only [Scalar.larger, hzero, Bool.true_eq_false, false_or]
    rfl
  rw [hlarger]
  constructor
  · rintro (h | h)
    · rw [if_pos h]
    · rw [if_neg h]
  · rintro rfl
    split
    · next h => exact .given h
    · next h => exact .nothing h

theorem eq_spelling_iff {arguments : Arguments} {spelling : Spelling} :
    spelling = arguments.spelling ↔ (spelling = .symbolic ↔ arguments.strict = true) := by
  rw [Arguments.spelling]
  cases arguments.strict <;> cases spelling <;> decide

theorem asks_iff {arguments : Arguments} {spelling : Spelling} {settings : Settings Float} :
    arguments.Asks spelling settings ↔
      spelling = arguments.spelling ∧ settings = arguments.settings := by
  constructor
  · rintro ⟨hsymbolic, hrow, hcolumn, hothers⟩
    refine ⟨eq_spelling_iff.2 hsymbolic, ?_⟩
    rw [hothers, keeps_iff.1 hrow, keeps_iff.1 hcolumn]
    rfl
  · rintro ⟨rfl, rfl⟩
    exact ⟨eq_spelling_iff.1 rfl, keeps_iff.2 rfl, keeps_iff.2 rfl, rfl⟩

/-! ### Stages that fail -/

section

variable (arguments : Arguments) (file : String → Except String String)

/-- The formula has the text. -/
inductive Supplies : String → Prop where
  /-- It is given. -/
  | expression {text : String} : arguments.source = .expression text → Supplies text
  /-- It stands in a file. -/
  | file {path text : String} : arguments.source = .file path → file path = .ok text →
    Supplies text

/-- The text of the formula is read as it is asked for. -/
structure Reads (text : String) (spelling : Spelling) (settings : Settings Float) (f : Formula) :
    Prop where
  /-- The formula has the text. -/
  supplies : arguments.Supplies file text
  /-- The spelling and the settings are asked for. -/
  asks : arguments.Asks spelling settings
  /-- The text is that of the formula. -/
  read_eq : Formula.read text spelling = .ok f

/-- A stage fails with the error. -/
inductive Fails : Stage → Error → Prop where
  /-- The file cannot be read. -/
  | source {path reason : String} : arguments.source = .file path → file path = .error reason →
    Fails .source (.unreadableFile path reason)
  /-- A text sets no switch. -/
  | switches {text : String} : FirstRefused text arguments.pairs →
    Fails .switches (.invalidAssignment text)
  /-- The text of the formula has no characters but blanks. -/
  | blank {text : String} : arguments.Supplies file text → Text.Blanks text.toList →
    Fails .blank .emptyExpression
  /-- The text of the formula has a stray character. -/
  | tokens {text : String} {position : Nat} {c : Char} : arguments.Supplies file text →
    Lexer.FirstStray text.toList position c → Fails .tokens (.strayCharacter position c)
  /-- The tokens are no formula, or one that nests too deep. -/
  | formula {text : String} {spelling : Spelling} {settings : Settings Float} {tokens : List Token}
    {fault : Parser.Fault} : arguments.Supplies file text → arguments.Asks spelling settings →
    tokenize text spelling = .ok tokens →
    Formula.ofTokens tokens Parser.defaultLimit = .error fault → Fails .formula fault.toError
  /-- The diagram is to be checked, and breaks a rule of the settings it has been laid out with. -/
  | check {text : String} {spelling : Spelling} {settings : Settings Float} {f : Formula}
    {error : Error} : arguments.check = true → Reads arguments file text spelling settings f →
    (f.layout settings).validate settings = .error error → Fails .check error

/-- The stage is the first one that fails, and does so with the error. -/
inductive FailsFirst (stage : Stage) (error : Error) : List Stage → Prop where
  /-- It comes first. -/
  | here {stages : List Stage} : arguments.Fails file stage error →
    FailsFirst stage error (stage :: stages)
  /-- It comes behind one that does not fail. -/
  | later {first : Stage} {stages : List Stage} : (∀ other, ¬ arguments.Fails file first other) →
    FailsFirst stage error stages → FailsFirst stage error (first :: stages)

end

variable {arguments : Arguments} {file : String → Except String String} {stage : Stage}
  {error : Error}

/-! ### One stage after the other -/

/-- A computation behind a stage fails where the stage does, and otherwise where the stages behind
it do. -/
theorem bind_eq_error_iff_failsFirst {β γ : Type} {first : Stage} {stages : List Stage}
    {result : Except Error β} {next : β → Except Error γ}
    (hfirst : ∀ error, result = .error error ↔ arguments.Fails file first error)
    (hnext : ∀ value, result = .ok value →
      (next value = .error error ↔ ∃ stage, arguments.FailsFirst file stage error stages)) :
    (result >>= next) = .error error ↔
      ∃ stage, arguments.FailsFirst file stage error (first :: stages) := by
  cases result with
  | error other =>
    have hfails : arguments.Fails file first other := (hfirst other).1 rfl
    constructor
    · intro h
      cases h
      exact ⟨first, .here hfails⟩
    · rintro ⟨stage, h | ⟨hnone, -⟩⟩
      · cases (hfirst error).2 h
        rfl
      · exact absurd hfails (hnone other)
  | ok value =>
    have hnone : ∀ other, ¬ arguments.Fails file first other := by
      intro other h
      cases (hfirst other).2 h
    rw [show (Except.ok value >>= next) = next value from rfl, hnext value rfl]
    constructor
    · rintro ⟨stage, h⟩
      exact ⟨stage, .later hnone h⟩
    · rintro ⟨stage, h | ⟨-, h⟩⟩
      · exact absurd h (hnone error)
      · exact ⟨stage, h⟩

/-- The first stage that fails is one of the stages, or comes behind all of them. -/
theorem failsFirst_append_iff {stages more : List Stage} :
    arguments.FailsFirst file stage error (stages ++ more) ↔
      arguments.FailsFirst file stage error stages ∨
        (∀ first ∈ stages, ∀ other, ¬ arguments.Fails file first other) ∧
          arguments.FailsFirst file stage error more := by
  induction stages with
  | nil =>
    constructor
    · intro h
      exact .inr ⟨List.forall_mem_nil _, h⟩
    · rintro (h | ⟨-, h⟩)
      · cases h
      · exact h
  | cons first stages ih =>
    rw [List.forall_mem_cons]
    constructor
    · rintro (h | ⟨hnone, h⟩)
      · exact .inl (.here h)
      · rcases ih.1 h with h | ⟨hstages, h⟩
        · exact .inl (.later hnone h)
        · exact .inr ⟨⟨hnone, hstages⟩, h⟩
    · rintro ((h | ⟨hnone, h⟩) | ⟨⟨hnone, hstages⟩, h⟩)
      · exact .here h
      · exact .later hnone (ih.2 (.inl h))
      · exact .later hnone (ih.2 (.inr ⟨hstages, h⟩))

theorem FailsFirst.mem {stages : List Stage} (h : arguments.FailsFirst file stage error stages) :
    stage ∈ stages := by
  induction h with
  | here => exact List.mem_cons_self
  | later _ _ ih => exact List.mem_cons_of_mem _ ih

/-- No stage fails where none is the first one to fail. -/
theorem forall_not_fails_of_forall_not_failsFirst {stages : List Stage}
    (h : ∀ stage error, ¬ arguments.FailsFirst file stage error stages) :
    ∀ stage ∈ stages, ∀ error, ¬ arguments.Fails file stage error := by
  induction stages with
  | nil => exact List.forall_mem_nil _
  | cons first stages ih =>
    have hfirst : ∀ error, ¬ arguments.Fails file first error := fun error hfails =>
      h first error (.here hfails)
    exact List.forall_mem_cons.2
      ⟨hfirst, ih fun stage error hlater => h stage error (.later hfirst hlater)⟩

/-! ### A run in two parts -/

section

variable (arguments : Arguments) (file : String → Except String String)

/-- The formula of a text that is not blank, read in the spelling that is asked for. -/
def formula (text : String) : Except Error Formula :=
  (if Text.isAllBlank text then .error .emptyExpression else .ok ()) >>= fun _ =>
  tokenize text arguments.spelling >>= fun tokens =>
  (Formula.ofTokens tokens Parser.defaultLimit).mapError Parser.Fault.toError

/-- What a run fetches and reads before it draws: the formula and the switches. -/
def drawn : Except Error (Formula × Switches) :=
  arguments.fetch file >>= fun text =>
  arguments.switches >>= fun switches =>
  arguments.formula text >>= fun f => .ok (f, switches)

/-- The check of a formula's diagram, if that is asked for. -/
def checked (f : Formula) : Except Error Unit :=
  if arguments.check then (f.layout arguments.settings).validate arguments.settings else .ok ()

/-- What is logged of a diagram that has been laid out. -/
def laidOut (f : Formula) : Event :=
  let diagram := f.layout arguments.settings
  .laidOut diagram.nodes.size diagram.wires.size diagram.width diagram.height

theorem compile_eq (text : String) : compile text arguments.spelling arguments.settings =
    (arguments.formula text).map (·.layout arguments.settings) := by
  rw [compile, formula, Formula.read]
  cases Text.isAllBlank text with
  | true => rfl
  | false =>
    cases tokenize text arguments.spelling with
    | error error => rfl
    | ok tokens =>
      cases h : (Formula.ofTokens tokens Parser.defaultLimit).mapError Parser.Fault.toError <;>
        simp [bind, Except.bind, pure, Except.pure, Except.map, h]

/-- What a run does with the formula and the switches, once it has them. -/
def finished (f : Formula) (switches : Switches) : Except Error (List String) × List Event :=
  match arguments.checked f with
  | .error error => (.error error, [arguments.laidOut f])
  | .ok () =>
    let diagram := ((f.layout arguments.settings).evaluate switches).1
    (.ok (arguments.print diagram),
      [arguments.laidOut f, .evaluated diagram.output diagram.nodes.size])

theorem run_lift_bind_of_eq_ok {β γ : Type} {result : Except Error β} {value : β}
    (h : result = .ok value) (next : β → Logged γ) (events : List Event) :
    (liftM result >>= next : Logged γ).run.run events = (next value).run.run events := by
  rw [h]
  rfl

theorem run_lift_bind_of_eq_error {β γ : Type} {result : Except Error β} {error : Error}
    (h : result = .error error) (next : β → Logged γ) (events : List Event) :
    (liftM result >>= next : Logged γ).run.run events = (.error error, events) := by
  rw [h]
  rfl

variable {arguments file}

/-- What a computation gives comes from what the computation before it gives. -/
theorem exists_eq_ok_of_bind {β γ : Type} {result : Except Error β} {next : β → Except Error γ}
    {value : γ} (h : (result >>= next) = .ok value) :
    ∃ first, result = .ok first ∧ next first = .ok value := by
  cases result with
  | error error => cases h
  | ok first => exact ⟨first, rfl, h⟩

/-- A run logs nothing before it draws. -/
theorem run_of_drawn_eq_error (h : arguments.drawn file = .error error) :
    (arguments.run file).run.run [] = (.error error, []) := by
  rw [drawn] at h
  rw [run]
  cases hfetch : arguments.fetch file with
  | error first =>
    rw [hfetch] at h
    cases h
    rfl
  | ok text =>
    rw [hfetch] at h
    rw [run_lift_bind_of_eq_ok rfl]
    cases hswitches : arguments.switches with
    | error first =>
      rw [hswitches] at h
      cases h
      rfl
    | ok switches =>
      rw [hswitches] at h
      change (arguments.formula text >>= _) = _ at h
      rw [run_lift_bind_of_eq_ok rfl]
      apply run_lift_bind_of_eq_error
      rw [compile_eq]
      cases hformula : arguments.formula text with
      | error first =>
        rw [hformula] at h
        cases h
        rfl
      | ok f =>
        rw [hformula] at h
        cases h

theorem run_of_drawn_eq_ok {f : Formula} {switches : Switches}
    (h : arguments.drawn file = .ok (f, switches)) :
    (arguments.run file).run.run [] = arguments.finished f switches := by
  obtain ⟨text, hfetch, h⟩ := exists_eq_ok_of_bind h
  obtain ⟨_, hswitches, h⟩ := exists_eq_ok_of_bind h
  obtain ⟨_, hformula, ⟨⟩⟩ := exists_eq_ok_of_bind h
  have hcompile : compile text arguments.spelling arguments.settings =
      .ok (f.layout arguments.settings) := by
    rw [compile_eq, hformula]
    rfl
  rw [run, run_lift_bind_of_eq_ok hfetch, run_lift_bind_of_eq_ok hswitches,
    run_lift_bind_of_eq_ok hcompile, finished, checked]
  cases arguments.check with
  | false => rfl
  | true => cases (f.layout arguments.settings).validate arguments.settings <;> rfl

end

/-! ### What each stage does -/

theorem fetch_eq_ok_iff {text : String} :
    arguments.fetch file = .ok text ↔ arguments.Supplies file text := by
  rw [fetch]
  constructor
  · intro h
    split at h
    · next given hsource =>
      cases h
      exact .expression hsource
    · next path hsource =>
      cases hfile : file path with
      | ok found =>
        rw [hfile] at h
        cases h
        exact .file hsource hfile
      | error reason =>
        rw [hfile] at h
        cases h
  · rintro (hsource | ⟨hsource, hfile⟩)
    · rw [hsource]
    · rw [hsource]
      simp only [hfile, Except.mapError]

theorem fetch_eq_error_iff :
    arguments.fetch file = .error error ↔ arguments.Fails file .source error := by
  rw [fetch]
  constructor
  · intro h
    split at h
    · cases h
    · next path hsource =>
      cases hfile : file path with
      | ok found =>
        rw [hfile] at h
        cases h
      | error reason =>
        rw [hfile] at h
        cases h
        exact .source hsource hfile
  · intro h
    cases h with
    | source hsource hfile =>
      rw [hsource]
      simp only [hfile, Except.mapError]

theorem Supplies.unique {text other : String} (h : arguments.Supplies file text)
    (hother : arguments.Supplies file other) : other = text := by
  rw [← fetch_eq_ok_iff] at h hother
  exact Except.ok.inj (hother.symm.trans h)

theorem switches_eq_error_iff :
    arguments.switches = .error error ↔ arguments.Fails file .switches error := by
  have hmap : arguments.switches = .error error ↔
      arguments.pairs.mapM Switches.readPair = .error error := by
    rw [switches]
    cases arguments.pairs.mapM Switches.readPair <;> simp [bind, Except.bind, pure, Except.pure]
  rw [hmap, Switches.mapM_readPair_eq_error_iff]
  constructor
  · rintro ⟨text, hrefused, rfl⟩
    exact .switches hrefused
  · intro h
    cases h with
    | switches hrefused => exact ⟨_, hrefused, rfl⟩

theorem isAllBlank_eq_true_iff {text : String} :
    Text.isAllBlank text = true ↔ Text.Blanks text.toList := List.all_eq_true

/-- The formula of a text is read in the spelling that is asked for. -/
theorem read_eq_of_formula_eq_ok {text : String} {f : Formula}
    (h : arguments.formula text = .ok f) :
    Formula.read text arguments.spelling = .ok f := by
  obtain ⟨-, -, h⟩ := exists_eq_ok_of_bind h
  exact h

section

variable {text : String} (htext : arguments.Supplies file text)

include htext

theorem blank_eq_error_iff :
    (if Text.isAllBlank text then .error .emptyExpression else .ok () : Except Error Unit) =
      .error error ↔ arguments.Fails file .blank error := by
  constructor
  · intro h
    split at h
    · next hblank =>
      cases h
      exact .blank htext (isAllBlank_eq_true_iff.1 hblank)
    · cases h
  · intro h
    cases h with
    | blank hother hblank =>
      cases htext.unique hother
      rw [if_pos (isAllBlank_eq_true_iff.2 hblank)]

theorem tokenize_eq_error_iff_fails :
    tokenize text arguments.spelling = .error error ↔ arguments.Fails file .tokens error := by
  rw [tokenize_eq_error_iff]
  constructor
  · rintro ⟨position, c, hfirst, rfl⟩
    exact .tokens htext hfirst
  · intro h
    cases h with
    | tokens hother hfirst =>
      cases htext.unique hother
      exact ⟨_, _, hfirst, rfl⟩

theorem ofTokens_eq_error_iff {tokens : List Token}
    (htokens : tokenize text arguments.spelling = .ok tokens) :
    (Formula.ofTokens tokens Parser.defaultLimit).mapError Parser.Fault.toError = .error error ↔
      arguments.Fails file .formula error := by
  constructor
  · intro h
    cases hformula : Formula.ofTokens tokens Parser.defaultLimit with
    | ok f =>
      rw [hformula] at h
      cases h
    | error fault =>
      rw [hformula] at h
      cases h
      exact .formula htext (asks_iff.2 ⟨rfl, rfl⟩) htokens hformula
  · intro h
    cases h with
    | formula hother hasks hothers hfault =>
      cases htext.unique hother
      obtain ⟨rfl, -⟩ := asks_iff.1 hasks
      cases htokens.symm.trans hothers
      rw [hfault]
      rfl

/-- The text is read where the stages from the refusal of blanks to the formula succeed. -/
theorem formula_eq_error_iff :
    arguments.formula text = .error error ↔
      ∃ stage, arguments.FailsFirst file stage error [.blank, .tokens, .formula] := by
  refine bind_eq_error_iff_failsFirst (fun error => blank_eq_error_iff htext) fun _ _ => ?_
  refine bind_eq_error_iff_failsFirst (fun error => tokenize_eq_error_iff_fails htext)
    fun tokens htokens => ?_
  rw [ofTokens_eq_error_iff htext htokens]
  constructor
  · intro h
    exact ⟨.formula, .here h⟩
  · rintro ⟨stage, h | ⟨-, ⟨⟩⟩⟩
    exact h

end

theorem drawn_eq_error_iff :
    arguments.drawn file = .error error ↔
      ∃ stage, arguments.FailsFirst file stage error Stage.early := by
  refine bind_eq_error_iff_failsFirst (fun error => fetch_eq_error_iff) fun text hfetch => ?_
  refine bind_eq_error_iff_failsFirst (fun error => switches_eq_error_iff) fun switches _ => ?_
  rw [← formula_eq_error_iff (fetch_eq_ok_iff.1 hfetch)]
  cases arguments.formula text <;> simp [bind, Except.bind]

/-! ### What is printed -/

/-- The formula that a run reads from a text. -/
theorem Reads.unique {text other : String} {spelling spelling' : Spelling}
    {settings settings' : Settings Float} {f g : Formula}
    (h : arguments.Reads file text spelling settings f)
    (h' : arguments.Reads file other spelling' settings' g) : settings' = settings ∧ g = f := by
  obtain ⟨hspelling, hsettings⟩ := asks_iff.1 h.asks
  obtain ⟨hspelling', hsettings'⟩ := asks_iff.1 h'.asks
  have hread := h'.read_eq
  rw [h.supplies.unique h'.supplies, hspelling', ← hspelling, h.read_eq] at hread
  exact ⟨hsettings'.trans hsettings.symm, (Except.ok.inj hread).symm⟩

/-- The diagram that a run prints, with the formula and the switches it comes from. -/
structure Draws (arguments : Arguments) (file : String → Except String String) (text : String)
    (spelling : Spelling) (settings : Settings Float) (f : Formula) (switches : Switches)
    (diagram : Diagram Float) : Prop extends Reads arguments file text spelling settings f where
  /-- The text is compiled in the spelling and with the settings that are asked for. -/
  compile_eq : compile text spelling settings = .ok (f.layout settings)
  /-- The value of a switch is that of the last text that sets it, if there is one. -/
  get?_eq_some_iff {name : Char} {value : Bool} :
    switches.get? name = some value ↔ LastSet name value arguments.pairs
  /-- The diagram is evaluated with these switches. -/
  eq_evaluate : diagram = ((f.layout settings).evaluate switches).1
  /-- It carries the values of the formula's parts, where a switch without a value is off. -/
  carries : diagram.Carries f fun name => .ofBool (switches.getD name)

/-- What is printed for a diagram. -/
inductive Prints (arguments : Arguments) (diagram : Diagram Float) : String → Prop where
  /-- The lines of its listing, each with its end. -/
  | text {lines : List String} : arguments.format = .text → diagram.Lists lines →
    Prints arguments diagram (String.join (lines.map (· ++ "\n")))
  /-- The text that renders it, in a line. -/
  | json {text : String} : arguments.format = .json → diagram.Renders text →
    Prints arguments diagram (text ++ "\n")

theorem unlines_singleton (line : String) : unlines [line] = line ++ "\n" := by
  simp [unlines]

theorem prints_iff {diagram : Diagram Float} {output : String} :
    arguments.Prints diagram output ↔ output = unlines (arguments.print diagram) := by
  rw [print]
  constructor
  · intro h
    cases h with
    | text hformat hlines =>
      rw [hformat, Diagram.lists_iff.1 hlines]
      rfl
    | json hformat hrenders => rw [hformat, unlines_singleton, Diagram.renders_iff.1 hrenders]
  · rintro rfl
    cases hformat : arguments.format with
    | text => exact .text hformat (Diagram.lists_iff.2 rfl)
    | json =>
      rw [unlines_singleton]
      exact .json hformat (Diagram.renders_iff.2 rfl)

/-- A formula and switches that are read belong to one diagram. -/
theorem exists_draws {f : Formula} {switches : Switches}
    (h : arguments.drawn file = .ok (f, switches)) :
    ∃ text, arguments.Draws file text arguments.spelling arguments.settings f switches
      ((f.layout arguments.settings).evaluate switches).1 := by
  obtain ⟨text, hfetch, h⟩ := exists_eq_ok_of_bind h
  obtain ⟨_, hswitches, h⟩ := exists_eq_ok_of_bind h
  obtain ⟨_, hformula, ⟨⟩⟩ := exists_eq_ok_of_bind h
  obtain ⟨pairs, hpairs, ⟨⟩⟩ := exists_eq_ok_of_bind hswitches
  have hcompile : compile text arguments.spelling arguments.settings =
      .ok (f.layout arguments.settings) := by
    rw [compile_eq, hformula]
    rfl
  refine ⟨text, ⟨fetch_eq_ok_iff.1 hfetch, asks_iff.2 ⟨rfl, rfl⟩,
    read_eq_of_formula_eq_ok hformula⟩, hcompile, Switches.get?_ofList_eq_some_iff hpairs, rfl, ?_⟩
  exact Diagram.carries_withSignals_layout f _ (signal?_run_layout f _ _ .off)

/-- A run prints one diagram only. -/
theorem Draws.unique {text other : String} {spelling spelling' : Spelling}
    {settings settings' : Settings Float} {f g : Formula} {switches switches' : Switches}
    {diagram diagram' : Diagram Float}
    (h : arguments.Draws file text spelling settings f switches diagram)
    (h' : arguments.Draws file other spelling' settings' g switches' diagram') :
    diagram' = diagram := by
  obtain ⟨hsettings, hf⟩ := h.toReads.unique h'.toReads
  have hswitches : switches' = switches := by
    apply Switches.ext_get?
    intro name
    ext value
    exact h'.get?_eq_some_iff.trans h.get?_eq_some_iff.symm
  rw [h'.eq_evaluate, h.eq_evaluate, hsettings, hf, hswitches]

/-! ### What is seen of a run -/

/-- The steps that are shown when a run ends, at a stage that fails or behind all of them. -/
inductive Logs (arguments : Arguments) (file : String → Except String String) :
    Option Stage → List Event → Prop where
  /-- Nothing is shown unless that is asked for. -/
  | quiet {ending : Option Stage} : arguments.verbose = false → Logs arguments file ending []
  /-- Nothing has been drawn where a stage before the check fails. -/
  | early {stage : Stage} : stage ≠ .check → Logs arguments file (some stage) []
  /-- The diagram has been laid out before the check. -/
  | check {text : String} {spelling : Spelling} {settings : Settings Float} {f : Formula}
    {diagram : Diagram Float} : arguments.verbose = true →
    arguments.Reads file text spelling settings f → diagram = f.layout settings →
    Logs arguments file (some .check)
      [.laidOut diagram.nodes.size diagram.wires.size diagram.width diagram.height]
  /-- It has been evaluated too before it is printed. -/
  | printed {text : String} {spelling : Spelling} {settings : Settings Float} {f : Formula}
    {switches : Switches} {diagram evaluated : Diagram Float} : arguments.verbose = true →
    arguments.Draws file text spelling settings f switches evaluated →
    diagram = f.layout settings →
    Logs arguments file none
      [.laidOut diagram.nodes.size diagram.wires.size diagram.width diagram.height,
        .evaluated evaluated.output evaluated.nodes.size]

/-- What is seen of a run, by its stages: its exit code, what it prints, and what it writes beside
that, where `line` writes the line of a step. -/
inductive Ends (arguments : Arguments) (file : String → Except String String)
    (line : Event → String) : Nat × String × String → Prop where
  /-- A stage fails. Nothing is printed, and the error of the first such stage is reported. -/
  | failed {stage : Stage} {error : Error} {events : List Event} :
    arguments.FailsFirst file stage error Stage.all → arguments.Logs file (some stage) events →
    Ends arguments file line
      (1, "", String.join (events.map line) ++ ("Error: " ++ error.message ++ "\n"))
  /-- No stage fails. The diagram of the formula is printed, and nothing is reported. -/
  | printed {text : String} {spelling : Spelling} {settings : Settings Float} {f : Formula}
    {switches : Switches} {diagram : Diagram Float} {output : String} {events : List Event} :
    (∀ stage error, ¬ arguments.Fails file stage error) →
    arguments.Draws file text spelling settings f switches diagram →
    arguments.Prints diagram output → arguments.Logs file none events →
    Ends arguments file line (0, output, String.join (events.map line))

/-- The steps that are shown of those that have been logged. -/
def shown (arguments : Arguments) (events : List Event) : List Event :=
  if arguments.verbose then events else []

theorem outcome_eq (arguments : Arguments) (file : String → Except String String) :
    arguments.outcome file =
      .ofResult (arguments.shown ((arguments.run file).run.run []).2)
        ((arguments.run file).run.run []).1 := rfl

/-! #### A stage before the check fails -/

theorem ne_check_of_failsFirst (h : arguments.FailsFirst file stage error Stage.early) :
    stage ≠ .check := by
  rintro rfl
  have := h.mem
  revert this
  decide

theorem Logs.eq_of_ne_check {events : List Event} (h : arguments.Logs file (some stage) events)
    (hstage : stage ≠ .check) : events = [] := by
  cases h with
  | quiet => rfl
  | early => rfl
  | check => contradiction

/-! #### The check fails -/

theorem Logs.eq_shown_laidOut {events : List Event} {text : String} {f : Formula}
    (h : arguments.Logs file (some .check) events)
    (hreads : arguments.Reads file text arguments.spelling arguments.settings f) :
    events = arguments.shown [arguments.laidOut f] := by
  cases h with
  | quiet hverbose => rw [shown, hverbose]; rfl
  | early hstage => contradiction
  | check hverbose hother hdiagram =>
    obtain ⟨rfl, rfl⟩ := hreads.unique hother
    rw [shown, if_pos hverbose, hdiagram]
    rfl

/-! #### What has been read -/

theorem FailsFirst.fails {stages : List Stage} (h : arguments.FailsFirst file stage error stages) :
    arguments.Fails file stage error := by
  induction h with
  | here h => exact h
  | later _ _ ih => exact ih

/-- Where no stage before the check fails, there is a formula to draw. -/
theorem exists_drawn_eq_ok
    (h : ∀ stage ∈ Stage.early, ∀ error, ¬ arguments.Fails file stage error) :
    ∃ f switches, arguments.drawn file = .ok (f, switches) := by
  cases hdrawn : arguments.drawn file with
  | error error =>
    obtain ⟨stage, hfirst⟩ := drawn_eq_error_iff.1 hdrawn
    exact absurd hfirst.fails (h stage hfirst.mem error)
  | ok drawn => exact ⟨drawn.1, drawn.2, rfl⟩

/-- Where there is a formula to draw, no stage before the check fails. -/
theorem forall_not_fails_of_drawn_eq_ok {drawn : Formula × Switches}
    (h : arguments.drawn file = .ok drawn) :
    ∀ stage ∈ Stage.early, ∀ error, ¬ arguments.Fails file stage error := by
  refine forall_not_fails_of_forall_not_failsFirst fun stage error hfirst => ?_
  cases h.symm.trans (drawn_eq_error_iff.2 ⟨stage, hfirst⟩)

theorem checked_eq_error_iff {text : String} {f : Formula}
    (hreads : arguments.Reads file text arguments.spelling arguments.settings f) :
    arguments.checked f = .error error ↔ arguments.Fails file .check error := by
  rw [checked]
  constructor
  · intro h
    split at h
    · next hcheck => exact .check hcheck hreads h
    · cases h
  · intro h
    cases h with
    | check hcheck hother hinvalid =>
      obtain ⟨rfl, rfl⟩ := hreads.unique hother
      rw [if_pos hcheck, hinvalid]

theorem Logs.eq_shown_printed {events : List Event} {text : String} {f : Formula}
    {switches : Switches} {diagram : Diagram Float} (h : arguments.Logs file none events)
    (hdraws : arguments.Draws file text arguments.spelling arguments.settings f switches diagram) :
    events =
      arguments.shown [arguments.laidOut f, .evaluated diagram.output diagram.nodes.size] := by
  cases h with
  | quiet hverbose => rw [shown, hverbose]; rfl
  | printed hverbose hother hdiagram =>
    obtain ⟨rfl, rfl⟩ := hdraws.toReads.unique hother.toReads
    rw [shown, if_pos hverbose, hdiagram, hdraws.unique hother]
    rfl

/-! #### Every run ends in one way -/

variable {line : Event → String} {seen : Nat × String × String}

theorem shown_nil : arguments.shown [] = [] := ite_self _

theorem seen_ofResult_error {events : List Event} :
    ((Outcome.ofResult events (.error error)).code, (Outcome.ofResult events (.error error)).output,
      (Outcome.ofResult events (.error error)).stderr line) =
        (1, "", String.join (events.map line) ++ ("Error: " ++ error.message ++ "\n")) := by
  rw [Outcome.ofResult, Outcome.stderr, unlines_singleton]

theorem seen_ofResult_ok {events : List Event} {lines : List String} :
    ((Outcome.ofResult events (.ok lines)).code, (Outcome.ofResult events (.ok lines)).output,
      (Outcome.ofResult events (.ok lines)).stderr line) =
        (0, unlines lines, String.join (events.map line)) := by
  rw [Outcome.ofResult, Outcome.stderr, String.append_empty]

/-- A run ends as its stages say. -/
theorem Ends.eq_seen (h : arguments.Ends file line seen) :
    ((arguments.outcome file).code, (arguments.outcome file).output,
      (arguments.outcome file).stderr line) = seen := by
  rw [outcome_eq]
  rcases h with ⟨hfirst, hlogs⟩ | ⟨hnone, hdraws, hprints, hlogs⟩
  · rw [Stage.all_eq, failsFirst_append_iff] at hfirst
    rcases hfirst with hearly | ⟨hnone, ⟨hfails⟩ | ⟨-, ⟨⟩⟩⟩
    · rw [run_of_drawn_eq_error (drawn_eq_error_iff.2 ⟨_, hearly⟩),
        hlogs.eq_of_ne_check (ne_check_of_failsFirst hearly), shown_nil]
      exact seen_ofResult_error
    · obtain ⟨f, switches, hdrawn⟩ := exists_drawn_eq_ok hnone
      obtain ⟨text, hdraws⟩ := exists_draws hdrawn
      rw [run_of_drawn_eq_ok hdrawn, finished,
        (checked_eq_error_iff hdraws.toReads).2 hfails, hlogs.eq_shown_laidOut hdraws.toReads]
      exact seen_ofResult_error
  · obtain ⟨f, switches, hdrawn⟩ := exists_drawn_eq_ok fun stage _ => hnone stage
    obtain ⟨text, hother⟩ := exists_draws hdrawn
    have hchecked : arguments.checked f = .ok () := by
      cases h : arguments.checked f with
      | error error => exact absurd ((checked_eq_error_iff hother.toReads).1 h) (hnone _ error)
      | ok => rfl
    rw [run_of_drawn_eq_ok hdrawn, finished, hchecked, hlogs.eq_shown_printed hother,
      prints_iff.1 hprints, hother.unique hdraws]
    exact seen_ofResult_ok

/-- Every run ends in some way. -/
theorem exists_ends (arguments : Arguments) (file : String → Except String String)
    (line : Event → String) : ∃ seen, arguments.Ends file line seen := by
  cases hdrawn : arguments.drawn file with
  | error error =>
    obtain ⟨stage, hearly⟩ := drawn_eq_error_iff.1 hdrawn
    exact ⟨_, .failed (failsFirst_append_iff.2 (.inl hearly))
      (.early (ne_check_of_failsFirst hearly))⟩
  | ok drawn =>
    obtain ⟨text, hdraws⟩ := exists_draws hdrawn
    have hnone := forall_not_fails_of_drawn_eq_ok hdrawn
    cases hchecked : arguments.checked drawn.1 with
    | error error =>
      have hfails : arguments.Fails file .check error :=
        (checked_eq_error_iff hdraws.toReads).1 hchecked
      have hfirst : arguments.FailsFirst file .check error Stage.all :=
        failsFirst_append_iff.2 (.inr ⟨hnone, .here hfails⟩)
      cases hverbose : arguments.verbose with
      | false => exact ⟨_, .failed hfirst (.quiet hverbose)⟩
      | true => exact ⟨_, .failed hfirst (.check hverbose hdraws.toReads rfl)⟩
    | ok =>
      have hall : ∀ stage error, ¬ arguments.Fails file stage error := by
        intro stage error hfails
        rcases stage.mem_early_or_eq_check with hearly | rfl
        · exact hnone stage hearly error hfails
        · cases hchecked.symm.trans ((checked_eq_error_iff hdraws.toReads).2 hfails)
      cases hverbose : arguments.verbose with
      | false => exact ⟨_, .printed hall hdraws (prints_iff.2 rfl) (.quiet hverbose)⟩
      | true => exact ⟨_, .printed hall hdraws (prints_iff.2 rfl) (.printed hverbose hdraws rfl)⟩

end Arguments

end Schematic.CommandLine
