import GrammarSuite.Run.Basic

/-!
# Runs for one category

Each category of cases can be made alone: valid strings with their traces, mutations of a given or
a derived string, and extreme strings of some kinds or of all.

## Main definitions

* `Run.validOnly`: valid cases
* `Run.invalidOnly`: invalid cases
* `Run.extremeOnly`: extreme cases
-/

namespace GrammarSuite.Run

open Json (Misuse Value)

variable {σ : Type} [Random.Source σ]

/-- Valid cases by a number of attempts, with their derivations. -/
def validOnly (plan : Plan) (g : Grammar) (source : Except Misuse σ) (now : Except Misuse Instant)
    (count : Value) : Run Outcome := do
  note Log.Channel.single ("Deriving " ++ count.display ++ " strings from '" ++ g.shownName ++
    "' (depth " ++ plan.maxDepth.display ++ ")")
  let engine ← engine plan g source
  let ((derivations, cases), elapsed) ← timed do
    let derivations ← derived engine (Engine.derivations count)
    let (cases, _) ← classified now (derivations.map Subject.ofDerivation) plan.session
    pure (derivations, cases)
  let metrics ← measured cases elapsed
  pure { grammar := g, cases, metrics, derivations }

/-- What is to be mutated: the given value, or a derived string with its derivation if the value is
null. -/
def seed (plan : Plan) (g : Grammar) (source : Except Misuse σ) :
    Value → Run (Value × List Derivation)
  | .null => do
    let d ← derived (← engine plan g source) Engine.seedDerivation
    pure (.text d.text, [d])
  | v => pure (v, [])

/-- Invalid cases by mutation of one string. -/
def invalidOnly (plan : Plan) (g : Grammar) (source : Except Misuse σ) (now : Except Misuse Instant)
    (given : Value) : Run Outcome := do
  let mutating ← Failure.required source
  let ((derivations, cases), elapsed) ← timed do
    let (edited, derivations) ← seed plan g source given
    note Log.Channel.single ("Mutating '" ++ edited.display ++ "' into " ++
      plan.invalidCount.display ++ " invalid cases")
    let mutations ← mutated plan mutating (Mutator.mutations edited plan.invalidCount)
    let (cases, _) ← classified now (mutations.map Subject.ofMutation) plan.session
    pure (derivations, cases)
  let metrics ← measured cases elapsed
  pure { grammar := g, cases, metrics, derivations }

/-- Extreme strings of the given kinds, or of all kinds. -/
def extremes (plan : Plan) (g : Grammar) (source : σ) :
    Option (List ExtremeKind) → Run (List Extreme)
  | none => searched plan g source (Finder.findAll plan.extremePerKind)
  | some kinds => searched plan g source <|
      Finder.findRepeated Log.Channel.single kinds plan.extremePerKind

/-- Extreme cases. -/
def extremeOnly (plan : Plan) (g : Grammar) (source : Except Misuse σ) (now : Except Misuse Instant)
    (kinds : Option (List ExtremeKind)) : Run Outcome := do
  let searching ← Failure.required source
  let (cases, elapsed) ← timed do
    let found ← extremes plan g searching kinds
    let (cases, _) ← classified now (found.map Subject.ofExtreme) plan.session
    pure cases
  note Log.Channel.single ("Generated " ++ toString cases.length ++ " extreme cases for '" ++
    g.shownName ++ "'")
  let metrics ← measured cases elapsed
  pure { grammar := g, cases, metrics }

end GrammarSuite.Run
