import GrammarSuite.Derivation.Engine
import GrammarSuite.Derivation.Minimal
import GrammarSuite.Json.Value

/-!
# Extreme strings

Strings at the structural limits of a grammar: the deepest and the shallowest derivation, the most
operators, the longest and the shortest expression, and the deepest nesting of parentheses. Three
kinds are the best of a fixed number of derivations, one is the minimal derivation, and two are
fixed arithmetic expressions that do not depend on the grammar.

## Main definitions

* `ExtremeKind`, `Measure`: the kinds, and the measure in which each is extreme
* `Extreme`, `Extreme.ofText`: a string and its measures
* `Finder.find`: an extreme string of a kind
* `Finder.findAll`: extreme strings of all kinds, without those that failed
-/

namespace GrammarSuite

/-- The kinds of extreme strings. -/
inductive ExtremeKind where
  | maxDepth
  | minDepth
  | maxComplexity
  | longExpression
  | shortExpression
  | maxNesting
  deriving DecidableEq, Repr

/-- A measure of a string. -/
inductive Measure where
  | depth
  | operatorCount
  | terminalCount
  | nestingLevel
  deriving DecidableEq, Repr

/-- The name of a measure. -/
def Measure.name : Measure → String
  | depth => "depth"
  | operatorCount => "operator_count"
  | terminalCount => "terminal_count"
  | nestingLevel => "nesting_level"

namespace ExtremeKind

/-- All kinds, in the order in which they are searched and reported. -/
def all : List ExtremeKind :=
  [maxDepth, minDepth, maxComplexity, longExpression, shortExpression, maxNesting]

/-- The name of a kind. -/
def name : ExtremeKind → String
  | maxDepth => "max_depth"
  | minDepth => "min_depth"
  | maxComplexity => "max_complexity"
  | longExpression => "long_expression"
  | shortExpression => "short_expression"
  | maxNesting => "max_nesting"

/-- The measure in which a kind is extreme. -/
def measure : ExtremeKind → Measure
  | maxDepth => .depth
  | minDepth => .depth
  | maxComplexity => .operatorCount
  | longExpression => .terminalCount
  | shortExpression => .terminalCount
  | maxNesting => .nestingLevel

/-- The kind of a name. -/
def ofName? (n : String) : Option ExtremeKind := all.find? (·.name = n)

/-- The kind that a value names. -/
def ofValue : Json.Value → Except Json.Misuse ExtremeKind :=
  Json.Value.member "ExtremeKind" ofName?

end ExtremeKind

/-- A string with its structural measures. The measures are whole numbers, unless they were given
otherwise. -/
structure Extreme where
  text : String
  kind : ExtremeKind
  description : Json.Value
  depth : Json.Value
  operatorCount : Json.Value
  terminalCount : Json.Value
  nestingLevel : Json.Value

namespace Extreme

/-- The value of a measure. -/
def valueOf (e : Extreme) : Measure → Json.Value
  | .depth => e.depth
  | .operatorCount => e.operatorCount
  | .terminalCount => e.terminalCount
  | .nestingLevel => e.nestingLevel

/-- The value of the measure in which the string is extreme. -/
def value (e : Extreme) : Json.Value := e.valueOf e.kind.measure

/-- The measures by their names. -/
def measures (e : Extreme) : List (String × Json.Value) :=
  [Measure.depth, .operatorCount, .terminalCount, .nestingLevel].map fun m => (m.name, e.valueOf m)

/-- An extreme string as JSON. -/
def toJson (e : Extreme) : Json.Value := .object <| [
  ("text", .text e.text),
  ("kind", .text e.kind.name),
  ("description", e.description)] ++ e.measures ++ [
  ("metric", .text e.kind.measure.name),
  ("metric_value", e.value)]

/-- A string with its measures; what is not given is measured on its tokens. -/
def ofText (text : String) (kind : ExtremeKind) (description depth : Json.Value)
    (operatorCount terminalCount nestingLevel : Option Json.Value) : Extreme :=
  let tokens := Token.tokenize text
  { text, kind, description, depth
    operatorCount := operatorCount.getD (.int (Token.countOperators tokens))
    terminalCount := terminalCount.getD (.int tokens.length)
    nestingLevel := nestingLevel.getD (.int (Token.nestingDepth tokens)) }

/-- The expression for the most operators when no derivation comes to an end. -/
def complexityFallback : String := "id + id * id + id * id"

/-- The levels of the expression for the deepest nesting. -/
def nestingLevels : Nat := 5

/-- An expression with a number of nested pairs of parentheses. -/
def nested : Nat → String
  | 0 => Token.defaultIdentifier
  | 1 => "( " ++ Token.defaultIdentifier ++ " )"
  | n + 2 => "( " ++ nested (n + 1) ++ " + " ++ Token.defaultIdentifier ++ " )"

/-- The shortest expression. -/
def shortest : Extreme :=
  ofText Token.defaultIdentifier .shortExpression (.text "Shortest possible expression")
    (.int 0) none (some (.int 1)) none

/-- The expression with the deepest nesting. -/
def deepestNesting : Extreme :=
  ofText (nested nestingLevels) .maxNesting
    (.text ("Expression with " ++ toString nestingLevels ++ " nesting levels")) (.int 0) none none
    (some (.int nestingLevels))

end Extreme

/-- What searches extreme strings: a grammar, the bound of a derivation, which deep searches
double, a source, and the records made. -/
structure Finder (σ : Type) where
  grammar : Grammar
  depthBound : Json.Value
  source : σ
  journal : Log.Journal := []

namespace Finder

variable {σ : Type} [Random.Source σ]

/-- The number of derivations in the search of a kind. -/
def deepTrials : Nat := 10
def complexTrials : Nat := 20
def longTrials : Nat := 15

/-- A finder with one more record. -/
def log (f : Finder σ) (level : Log.Level) (channel message : String) : Finder σ :=
  { f with journal := f.journal ++ [⟨level, channel, message⟩] }

/-- The best of a number of derivations within a bound, with its score. -/
def bestOf (trials : Nat) (bound : Json.Value) (score : Derivation → Nat) :
    Action (Finder σ) Failure (Option (Derivation × Nat)) := Action.ofFunction fun f =>
  match Engine.ofBound f.grammar bound f.source with
  | .error e => (.error e, f)
  | .ok engine =>
    -- The engine goes on with the records and the source of the finder.
    let engine := { engine with journal := f.journal }
    let (found, engine) := (Engine.best score trials none).runOn engine
    (found, { f with source := engine.source, journal := engine.journal })

/-- Twice the bound. -/
def deepBound : Action (Finder σ) Failure Json.Value := Action.ofFunction fun f =>
  (DepthBound.doubled f.depthBound, f)

/-- The deepest derivation. -/
def deepest : Action (Finder σ) Failure Extreme := do
  let bound ← deepBound
  match ← bestOf deepTrials bound Derivation.depth with
  | none => throw (.depthExceeded ⟨bound, .deepest⟩)
  | some (d, depth) =>
    pure (Extreme.ofText d.text .maxDepth
      (.text ("Derivation with " ++ toString depth ++ " steps")) (.int depth) none none none)

/-- The minimal derivation. Its depth is the length of its trace. -/
def shallowest : Action (Finder σ) Failure Extreme := do
  match (← get).grammar.minimalDerivation Grammar.minimalStepLimit with
  | .error e => throw e
  | .ok (text, steps) =>
    pure (Extreme.ofText text .minDepth (.text "Minimal case (shortest derivation)")
      (.int (steps + 1 : Nat)) none none none)

/-- The derivation with the most operators. -/
def mostComplex : Action (Finder σ) Failure Extreme := do
  let score (text : String) := Token.countOperators (Token.tokenize text)
  let found ← bestOf complexTrials (← get).depthBound fun d => score d.text
  let (text, operators) ← match found with
    | some (d, operators) => pure (d.text, operators)
    -- This kind alone falls back on a fixed expression.
    | none => do
      modify fun f => f.log .debug Log.Channel.extreme
        "All complexity trials failed, using fallback expression"
      pure (Extreme.complexityFallback, score Extreme.complexityFallback)
  pure (Extreme.ofText text .maxComplexity
    (.text ("Expression with " ++ toString operators ++ " operators")) (.int 0)
    (some (.int operators)) none none)

/-- The derivation with the most tokens. -/
def longest : Action (Finder σ) Failure Extreme := do
  let bound ← deepBound
  match ← bestOf longTrials bound fun d => (Token.tokenize d.text).length with
  | none => throw (.depthExceeded ⟨bound, .longest⟩)
  | some (d, terminals) =>
    pure (Extreme.ofText d.text .longExpression
      (.text ("Long expression with " ++ toString terminals ++ " terminal symbols")) (.int 0)
      none (some (.int terminals)) none)

/-- An extreme string of a kind. -/
def find : ExtremeKind → Action (Finder σ) Failure Extreme
  | .maxDepth => deepest
  | .minDepth => shallowest
  | .maxComplexity => mostComplex
  | .longExpression => longest
  | .shortExpression => pure Extreme.shortest
  | .maxNesting => pure Extreme.deepestNesting

/-- An extreme string of a kind, or none, with a record on the given channel, if its search
reached a bound. -/
def find? (channel : String) (kind : ExtremeKind) : Action (Finder σ) Failure (Option Extreme) :=
  Action.ofFunction fun f =>
    match (find kind).runOn f with
    | (.ok e, f) => (.ok (some e), f)
    | (.error (.depthExceeded d), f) =>
      (.ok none, f.log .warning channel ("Skipping " ++ kind.name ++ " case: " ++ d.message))
    | (.error e, f) => (.error e, f)

/-- Extreme strings of the kinds of a list, without those whose search reached a bound. -/
def findEach (channel : String) : List ExtremeKind → Action (Finder σ) Failure (List Extreme)
  | [] => pure []
  | kind :: rest => do
    let found ← find? channel kind
    let others ← findEach channel rest
    pure (found.toList ++ others)

/-- Each kind of a list a number of times. -/
def repeated (kinds : List ExtremeKind) (perKind : Int) : List ExtremeKind :=
  kinds.flatMap fun kind => List.replicate perKind.toNat kind

/-- Extreme strings of the kinds of a list, each a number of times. Without kinds the number is not
looked at. -/
def findRepeated (channel : String) (kinds : List ExtremeKind) (perKind : Json.Value) :
    Action (Finder σ) Failure (List Extreme) :=
  if kinds.isEmpty then pure []
  else do
    let n ← Failure.required perKind.whole
    findEach channel (repeated kinds n)

/-- Extreme strings of all kinds, each a number of times. -/
def findAll (perKind : Json.Value) : Action (Finder σ) Failure (List Extreme) :=
  findRepeated Log.Channel.extreme ExtremeKind.all perKind

end Finder

end GrammarSuite
