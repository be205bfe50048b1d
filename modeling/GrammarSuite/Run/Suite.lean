import GrammarSuite.Run.Basic

/-!
# Suites

A suite has a section for each category: derivations, mutations of the first derived string, and
extreme strings of every kind. The identifiers of its cases count from one.

## Main definitions

* `Run.invalidSection`, `Run.extremeSection`: what the cases of a category are made of
* `Run.suite`: the three sections, labelled
-/

namespace GrammarSuite.Run

open Json (Misuse)

variable {σ : Type} [Random.Source σ]

/-- The mutations of the first of a list of derivations. Without a derivation there are none, which
is recorded if some were asked for. -/
def invalidSection (plan : Plan) (source : σ) (derivations : List Derivation) :
    Run (List Mutation) := do
  if ← Failure.required plan.invalidCount.positive then
    match derivations with
    | d :: _ => mutated plan source (Mutator.mutations (.text d.text) plan.invalidCount)
    | [] => do
      record [⟨.warning, Log.Channel.suite,
        "No valid string was derived, skipping invalid cases"⟩]
      pure []
  else pure []

/-- The extreme strings of a suite. -/
def extremeSection (plan : Plan) (g : Grammar) (source : σ) : Run (List Extreme) := do
  if ← Failure.required plan.extremePerKind.positive then
    searched plan g source (Finder.findAll plan.extremePerKind)
  else pure []

/-- The sections of a suite as cases of a session, with the derivations and the session after
it. -/
def sections (plan : Plan) (engine : Engine σ) (now : Except Misuse Instant)
    (session : Session) : Run (List Derivation × List TestCase × Session) := do
  let derivations ← derived engine (Engine.derivations plan.validCount)
  let (valid, session) ← classified now (derivations.map Subject.ofDerivation) session
  let mutations ← invalidSection plan engine.source derivations
  let (invalid, session) ← classified now (mutations.map Subject.ofMutation) session
  let extremes ← extremeSection plan engine.grammar engine.source
  let (extreme, session) ← classified now (extremes.map Subject.ofExtreme) session
  pure (derivations, valid ++ invalid ++ extreme, session)

/-- A suite in a session, whose counter starts again, and the session after it. -/
def suite (plan : Plan) (g : Grammar) (source : Except Misuse σ)
    (now : Except Misuse Instant) (session : Session) : Run (Outcome × Session) := do
  note Log.Channel.suite ("Generating suite for '" ++ g.shownName ++ "': " ++
    plan.validCount.display ++ " valid, " ++ plan.invalidCount.display ++ " invalid, " ++
    plan.extremePerKind.display ++ " extreme per kind (depth " ++ plan.maxDepth.display ++ ")")
  let engine ← engine plan g source
  let ((derivations, cases, session), elapsed) ← timed (sections plan engine now session.reset)
  let metrics ← measured cases elapsed
  note Log.Channel.suite ("Suite complete: " ++ toString metrics.totalCases ++ " cases in " ++
    Decimal.fixed 2 metrics.elapsed ++ " ms")
  pure ({ grammar := g, cases, metrics, derivations }, session)

end GrammarSuite.Run
