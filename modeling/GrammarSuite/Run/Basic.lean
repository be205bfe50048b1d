import GrammarSuite.Case.Session
import GrammarSuite.Metrics.Basic
import GrammarSuite.Metrics.Stopwatch

/-!
# Runs

What the runs of the generator have in common. A run is planned by a few values, reads the clock
when it starts and stops, and makes records while it works. Every engine in a run starts from the
same state of the source, so that what one of them draws does not depend on the others. A source
may be missing, because of the value that should have seeded it.

## Main definitions

* `Plan`, `Plan.Valid`: what a run is asked for, and what it should be asked for
* `Outcome`: the cases of a run, their metrics, and the derivations that were kept
* `Run`: an action on the clock and the records
* `Run.derived`, `Run.mutated`, `Run.searched`: what the engines of a run find
* `Run.timed`: an action with the time it takes
-/

namespace GrammarSuite

open Json (Misuse Value)

/-- What a run is asked for. The values are checked where the run uses them. -/
structure Plan where
  /-- The bound of a derivation. -/
  maxDepth : Value := .int 20
  validCount : Value := .int 5
  invalidCount : Value := .int 5
  extremePerKind : Value := .int 1
  /-- The spelling of an identifier. -/
  identifier : Value := .text Token.defaultIdentifier

/-- Whether a value is a whole number of at least a bound. -/
def Plan.reaches (least : Int) : Value → Bool
  | .int n => least ≤ n
  | _ => false

/-- Whether a value is a text that is not empty. -/
def Plan.spells : Value → Bool
  | .text s => s ≠ ""
  | _ => false

/-- The bound of a plan is a whole number of at least one, its counts are whole numbers that are not
negative, and its identifier is a text that is not empty. -/
def Plan.Valid (p : Plan) : Prop :=
  reaches 1 p.maxDepth ∧ reaches 0 p.validCount ∧ reaches 0 p.invalidCount ∧
    reaches 0 p.extremePerKind ∧ spells p.identifier

instance (p : Plan) : Decidable p.Valid := by unfold Plan.Valid; infer_instance

/-- A session for the cases of a plan. -/
def Plan.session (p : Plan) : Session := { identifier := p.identifier }

/-- What a run gives. -/
structure Outcome where
  grammar : Grammar
  cases : List TestCase
  metrics : Metrics
  /-- The derivations behind the valid cases, or behind the string that was mutated. -/
  derivations : List Derivation := []

/-- What a run works on: the clock and the records made so far. -/
structure RunState where
  clock : Clock
  journal : Log.Journal := []

/-- An action of a run. -/
abbrev Run (α : Type) := Action RunState Failure α

namespace Run

variable {σ α : Type}

/-- Makes records. -/
def record (records : Log.Journal) : Run Unit :=
  modify fun s => { s with journal := s.journal ++ records }

/-- The result of an engine, which made records. -/
def report (result : Except Failure α) (records : Log.Journal) : Run α :=
  Action.ofFunction fun s => (result, { s with journal := s.journal ++ records })

/-- A new engine. Its bound is looked at before its source. -/
def engine (plan : Plan) (g : Grammar) (source : Except Misuse σ) : Run (Engine σ) :=
  match DepthBound.ofValue plan.maxDepth with
  | .error f => throw f
  | .ok bound => do pure { grammar := g, bound, source := ← Failure.required source }

/-- What an engine derives. -/
def derived (engine : Engine σ) (x : Action (Engine σ) Failure α) : Run α :=
  let (result, engine) := x.runOn engine
  report result engine.journal

/-- What a new mutator finds. -/
def mutated (plan : Plan) (source : σ) (x : Action (Mutator σ) Failure α) : Run α :=
  let (result, mutator) := x.runOn { source, identifier := plan.identifier }
  report result mutator.journal

/-- What a new finder finds. -/
def searched (plan : Plan) (g : Grammar) (source : σ) (x : Action (Finder σ) Failure α) : Run α :=
  let (result, finder) := x.runOn { grammar := g, depthBound := plan.maxDepth, source }
  report result finder.journal

/-- Subjects as cases of a session, and the session after them. -/
def classified (now : Except Misuse Instant) (subjects : List Subject) (session : Session) :
    Run (List TestCase × Session) := do
  let (result, session) := (Session.classifyAll now subjects).runOn session
  pure (← Failure.required result, session)

/-- An action with the milliseconds it takes. If the clock cannot be read behind the action, that is
the failure, whatever the action gave. -/
def timed (x : Run α) : Run (α × Float) := Action.ofFunction fun s =>
  match Stopwatch.start.runOn { clock := s.clock } with
  | (.error m, w) => (.error (.misuse m), { s with clock := w.clock })
  | (.ok (), w) =>
    let (result, s) := x.runOn { s with clock := w.clock }
    let (elapsed, w) := (Stopwatch.stop *> Stopwatch.elapsed).runOn { w with clock := s.clock }
    let result := match elapsed with
      | .ok t => result.map fun a => (a, t)
      | .error m => .error (.misuse m)
    (result, { s with clock := w.clock })

/-- The metrics of cases that took a number of milliseconds. -/
def measured (cases : List TestCase) (elapsed : Float) : Run Metrics := do
  let result := Metrics.ofCases cases elapsed
  record (Metrics.journal cases result)
  Failure.required result

/-- A record of information. -/
def note (channel message : String) : Run Unit := record [⟨.info, channel, message⟩]

end Run

end GrammarSuite
