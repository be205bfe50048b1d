import GrammarSuite.CommandLine.Options
import GrammarSuite.CommandLine.Terminal
import GrammarSuite.Display.Panels
import GrammarSuite.Run.Suite
import GrammarSuite.Run.Single

/-!
# The command-line program

A run of the program loads the settings, sets the log up, changes the settings by the options,
checks and perhaps saves them, loads the grammar, makes the cases, prints them, and writes reports.
A failure that has to do with the settings, with the grammar or with writing is reported in the log
and ends the run.

## Main definitions

* `Program.settings`, `Options.changed`, `Program.checked`: the settings of a run
* `Program.grammar`: the grammar of a run
* `Program.outcome`: the cases of a run
* `Program.results`, `Program.exports`: what a run prints and writes
* `Program.ofArguments`, `Program.run`: a run from its arguments
-/

namespace GrammarSuite.CommandLine

open Json (Value)

namespace Options

/-- The settings that the options change. -/
def changes (o : Options) : Table String Value := [
  ("valid_count", o.validCount),
  ("invalid_count", o.invalidCount),
  ("extreme_per_kind", o.extremePerKind),
  ("max_depth", o.depth),
  ("seed", o.seed),
  ("identifier", o.identifier),
  ("grammar", o.grammar),
  ("grammar_file", o.grammarFile),
  ("output_dir", o.outputDirectory)]

/-- Whether a built-in grammar is chosen, and no file. -/
def choosesBuiltin (o : Options) : Bool := o.grammar.truthy && !o.grammarFile.truthy

/-- Settings changed by the options. A built-in grammar that is chosen takes the place of a
grammar file. -/
def changed (o : Options) (s : Settings) : Except SettingsError Settings := do
  let s ← s.update o.changes
  let s ← if o.choosesBuiltin then s.assign "grammar_file" .null else pure s
  if o.tui then s.assign "tui" (.bool true) else pure s

/-- The level of the log. -/
def level (o : Options) (s : Settings) : Log.Level :=
  if o.quiet then .warning
  else
    match o.logLevel with
    | some name => .ofName name
    | none => .ofJson (s.value "log_level")

end Options

namespace Program

/-- The settings before the options. -/
def settings (env : Environment) (o : Options) : Program Settings := do
  match ← onFiles (Settings.load env.home o.configDirectory) with
  | .ok s => pure s
  | .error (.config e) => do
    setUpLog env {
      level := .int Log.Level.error.severity
      toFile := .bool false
      toConsole := .bool true }
    fail env ("Failed to load config: " ++ e.message)
  | .error e => crash (.settings e)

/-- Ends the run if an operation on settings failed. -/
def orInvalid {α : Type} (env : Environment) : Except SettingsError α → Program α
  | .ok a => pure a
  | .error (.config e) => fail env ("Invalid configuration: " ++ e.message)
  | .error e => crash (.settings e)

/-- Checks the settings, and saves them if that is asked for. -/
def checked (env : Environment) (o : Options) (s : Settings) : Program Unit := do
  orInvalid env s.validate
  if o.saveConfig then
    let path ← orInvalid env (← onFiles (s.save env.home))
    say env .info ("Saved configuration to " ++ path)

/-- The grammar of a file. -/
def grammarOfFile (env : Environment) (path : String) : Program Grammar := do
  match Grammar.load env.home (← get).outlet.tree path with
  | .ok g => do
    record env (Grammar.readJournal (.ok g))
    pure g
  | .error e =>
    let reported : Bool := match e with
      | .file f => decide (f.problem = .missing)
      | _ => true
    if reported then fail env ("Failed to load grammar: " ++ e.message)
    else crash (.grammar e)

/-- A built-in grammar. -/
def grammarOfName (env : Environment) (name : Value) : Program Grammar := do
  let b ← meant (Builtin.ofValue name)
  record env (Grammar.readJournal b.grammar)
  match b.grammar with
  | .ok g => pure g
  | .error e => fail env ("Failed to load grammar: " ++ e.message)

/-- The grammar of a run: that of the grammar file, if one is set. -/
def grammar (env : Environment) (s : Settings) : Program Grammar :=
  let file := s.value "grammar_file"
  if file.truthy then grammarOfFile env file.display else grammarOfName env (s.value "grammar")

/-- The extreme strings of some kinds, or of all kinds if there are none. -/
def extremes (env : Environment) (kinds : List Value) (plan : Plan) (g : Grammar)
    (source : Except Json.Misuse Random.Twister) : Run Outcome := do
  let kinds ← Failure.required (kinds.mapM ExtremeKind.ofValue)
  Run.extremeOnly plan g source env.now (if kinds.isEmpty then none else some kinds)

/-- The run of the generator for a mode. -/
def generation (env : Environment) (o : Options) (plan : Plan) (g : Grammar)
    (source : Except Json.Misuse Random.Twister) : Run Outcome :=
  match o.mode with
  | .derive => Run.validOnly plan g source env.now plan.validCount
  | .invalid => Run.invalidOnly plan g source env.now o.input
  | .extreme | .unnamed => extremes env o.kinds plan g source
  | _ => Prod.fst <$> Run.suite plan g source env.now plan.session

/-- The cases of a run. -/
def outcome (env : Environment) (o : Options) (s : Settings) (g : Grammar) : Program Outcome := do
  let reported := fun e => fail env ("Error running " ++ o.mode.name ++ " mode: " ++ e)
  match ← onRun env (generation env o s.plan g (s.source env.seed)) with
  | .ok outcome => pure outcome
  | .error (.depthExceeded e) => reported e.message
  | .error (.noProductions symbol) => reported (noProductionsMessage symbol)
  | .error e => crash (.run e)

/-- The lines of a derivation, below an empty line. -/
def traceLines (d : Derivation) : List String :=
  "" :: d.text :: d.steps.zipIdx.map fun (step, i) => "  Step " ++ toString i ++ ": " ++ step.text

/-- The line of a case. -/
def caseLine (c : TestCase) : String := Text.padRight 14 c.id.display ++ " " ++ c.content.display

/-- The lines of an outcome, above the short report. -/
def outcomeLines (o : Outcome) (traces : Bool) : List String :=
  (if traces then o.derivations.flatMap traceLines ++ [""] else []) ++ o.cases.map caseLine ++ [""]

/-- Whether a run shows displays. -/
def showsDisplays (s : Settings) : Bool := (s.value "tui").truthy

/-- Prints the grammar. -/
def describe (s : Settings) (g : Grammar) : Program Unit :=
  if showsDisplays s then display (Display.ofGrammar g) else print g.describe

/-- Prints the cases of a run; those of derivations with their traces. -/
def results (o : Options) (s : Settings) (outcome : Outcome) : Program Unit := do
  let traces := decide (o.mode = .derive)
  if showsDisplays s then display (← meant (Display.ofOutcome outcome traces))
  else
    (outcomeLines outcome traces).forM print
    print (← meant (Report.summary outcome.metrics.figures))

/-- Ends the run if writing failed. -/
def orUnwritten {α : Type} (env : Environment) : Except SaveError α → Program α
  | .ok a => pure a
  | .error (.file e) =>
    if e.problem.isOfSystem then fail env ("Failed to write output: " ++ e.message)
    else crash (.file e)
  | .error (.misuse m) => crash (.misuse m)

/-- Exports the cases, if that is asked for. An empty path stands for a stamped name. -/
def exports (env : Environment) (o : Options) (s : Settings) (r : Report) (directory : String) :
    Program Unit := do
  match o.exportTo with
  | none => pure ()
  | some path => do
    let path : Value := if path.isEmpty then .null else .text path
    let configuration ← orInvalid env s.toJson
    let path ← orUnwritten env (← onFiles (r.exportJson env.home directory configuration path))
    record env [r.exportRecord path]
    print ("Exported " ++ toString r.cases.length ++ " cases to " ++ path)

/-- Saves the report in all formats, if that is asked for. -/
def reports (env : Environment) (o : Options) (r : Report) (directory : String) :
    Program Unit := do
  if o.report then
    let saved ← orUnwritten env (← onFiles (r.save directory .null))
    record env [Report.saveRecord saved]
    saved.forM fun (format, path) => print ("Saved " ++ format.name ++ " report to " ++ path)

/-- A run that makes cases. -/
def generate (env : Environment) (o : Options) (s : Settings) (g : Grammar) : Program Unit := do
  let outcome ← outcome env o s g
  results o s outcome
  let r : Report := {
    cases := outcome.cases
    figures := outcome.metrics.figures
    grammar := some g
    now := env.now }
  let directory ← orInvalid env (Settings.expandPath env.home (s.value "output_dir"))
  exports env o s r directory
  reports env o r directory
  say env .info "cfgcases has finished execution. Goodbye!"

/-- A run with options. -/
def withOptions (env : Environment) (o : Options) : Program Unit := do
  let s ← settings env o
  setUpLog env {
    level := .int (o.level s).severity
    toConsole := .bool true
    path := o.logFile }
  say env .info ("Starting cfgcases in '" ++ o.mode.name ++ "' mode...")
  let s ← orInvalid env (o.changed s)
  checked env o s
  let g ← grammar env s
  if o.mode = .grammar then describe s g else generate env o s g

/-- The line that says how the program is used. -/
def usage : String :=
  "usage: cfgcases " ++ " ".intercalate (Switch.all.map fun s =>
    "[" ++ s.name ++ (match s.arity with
      | .none => "]"
      | .one => " VALUE]"
      | .optional => " [VALUE]]"))

/-- A run from its arguments. -/
def ofArguments (env : Environment) (arguments : List String) : Program Unit :=
  match Options.read arguments with
  | .error .help => print usage
  | .error (.misuse m) => do
    complain usage
    complain ("cfgcases: error: " ++ m.message)
    throw .misused
  | .ok o => if o.listGrammars then Builtin.names.forM print else withOptions env o

/-- How a run ends, and the terminal after it. The log of an earlier run is not carried over. -/
def run (env : Environment) (arguments : List String) (t : Terminal) : Ending × Terminal :=
  match (ofArguments env arguments).runOn { t with logger := {} } with
  | (.ok (), t) => (.finished, t)
  | (.error e, t) => (e, t)

end Program

end GrammarSuite.CommandLine
