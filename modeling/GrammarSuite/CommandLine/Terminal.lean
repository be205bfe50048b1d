import GrammarSuite.Action
import GrammarSuite.Display.Basic
import GrammarSuite.Grammar.Builtin
import GrammarSuite.Grammar.Load
import GrammarSuite.Log.Output
import GrammarSuite.Report.Export
import GrammarSuite.Settings.File

/-!
# The terminal of the program

What the command-line program knows and works on, and how it ends. The program writes lines of
output, shows displays, makes log records and changes files; all of this is a value here.

## Main definitions

* `Environment`: what the program knows of its surroundings
* `Terminal`: what was shown, the log, the files and the clock
* `Ending`, `Crash`: how a run of the program ends
* `Program`: an action on a terminal
* `Program.print`, `Program.say`, `Program.record`, `Program.onFiles`, `Program.onRun`: the actions
  that programs are made of
-/

namespace GrammarSuite.CommandLine

/-- What the program knows of its surroundings. -/
structure Environment where
  home : String
  /-- The moment of cases and reports, if it is known. -/
  now : Except Json.Misuse Instant
  /-- The moment of log records. -/
  logged : Instant
  /-- The seed of runs for which none is set. -/
  seed : Int

/-- What the program shows to its user. -/
inductive Shown where
  | line (text : String)
  | display (d : Display)

/-- What the program works on: the console of the log and the files, the log, what it has shown, and
the clock. -/
structure Terminal where
  outlet : Log.Outlet := {}
  logger : Log.Logger := {}
  shown : List Shown := []
  clock : Clock

namespace Terminal

/-- The lines that were shown. -/
def output (t : Terminal) : String :=
  String.join (t.shown.map fun
    | .line text => text ++ "\n"
    | .display _ => "")

/-- The displays that were shown. -/
def displays (t : Terminal) : List Display := t.shown.filterMap fun
  | .line _ => none
  | .display d => some d

end Terminal

/-- A failure that the program does not report but passes on. -/
inductive Crash
  | settings (e : SettingsError)
  | log (e : Log.SetupError)
  | grammar (e : LoadError)
  | file (e : FileError)
  | run (e : Failure)
  /-- A value is used in a way that its kind does not allow. -/
  | misuse (m : Json.Misuse)

/-- The wording of a failure. -/
def Crash.message : Crash → String
  | settings e => e.message
  | log e => e.message
  | grammar e => e.message
  | file e => e.message
  | run e => e.message
  | misuse m => m.message

/-- How a run of the program ends before its time. -/
inductive Ending
  | finished
  /-- A failure was reported. -/
  | failed
  /-- The arguments cannot be read. -/
  | misused
  | crashed (e : Crash)

/-- The status that a run leaves, if it did not crash. -/
def Ending.status? : Ending → Option Nat
  | finished => some 0
  | failed => some 1
  | misused => some 2
  | crashed _ => none

/-- An action on a terminal, which may end the run. -/
abbrev Program (α : Type) := Action Terminal Ending α

namespace Program

variable {α ε : Type}

/-- Writes a line of output. -/
def print (line : String) : Program Unit :=
  modify fun t => { t with shown := t.shown ++ [.line line] }

/-- Shows a display. -/
def display (d : Display) : Program Unit :=
  modify fun t => { t with shown := t.shown ++ [.display d] }

/-- Writes a line to the console of the log, past the log. -/
def complain (line : String) : Program Unit :=
  modify fun t => { t with outlet := t.outlet.print line }

/-- Makes records. -/
def record (env : Environment) (records : Log.Journal) : Program Unit :=
  modify fun t => { t with outlet := t.logger.emitAll env.logged records t.outlet }

/-- Makes a record of the program itself. -/
def say (env : Environment) (level : Log.Level) (message : String) : Program Unit :=
  record env [⟨level, Log.Channel.main, message⟩]

/-- Reports a failure and ends the run. -/
def fail (env : Environment) (message : String) : Program α := do
  say env .error message
  throw .failed

/-- Ends the run with a failure that is not reported. -/
def crash (e : Crash) : Program α := throw (.crashed e)

/-- Sets the log up. -/
def setUpLog (env : Environment) (setup : Log.Setup) : Program Unit := do
  let t ← get
  let (result, a) := (setup.assemble env.home env.logged).runOn ⟨t.logger, t.outlet⟩
  set { t with logger := a.logger, outlet := a.outlet }
  match result with
  | .ok () => pure ()
  | .error e => crash (.log e)

/-- What values stand for. -/
def meant {α : Type} : Except Json.Misuse α → Program α
  | .ok a => pure a
  | .error m => crash (.misuse m)

/-- The outcome of an action on the files. -/
def onFiles (x : Action FileTree ε α) : Program (Except ε α) := Action.ofFunction fun t =>
  let (result, tree) := x.runOn t.outlet.tree
  (.ok result, { t with outlet := { t.outlet with tree } })

/-- The outcome of a run of the generator, whose records are passed to the log. -/
def onRun (env : Environment) (x : Run α) : Program (Except Failure α) := do
  let t ← get
  let (result, s) := x.runOn { clock := t.clock }
  set { t with clock := s.clock }
  record env s.journal
  pure result

end Program

end GrammarSuite.CommandLine
