import GrammarSuite.Derivation.Bound
import GrammarSuite.Json.Order
import GrammarSuite.Token

/-!
# Leftmost derivation

An engine derives terminal strings from a grammar. It always expands the first nonterminal of the
form, by a production that it draws. Once fewer than a third of the allowed steps remain it avoids
the productions whose body starts with their head, where there are others.

A derivation takes at most as many expansions as the bound of the engine allows. The engine
remembers the trace of the last derivation, and forgets it when a derivation fails.

## Main definitions

* `Engine`, `Engine.ofBound`: an engine with a grammar, a bound and a source
* `Engine.candidates`: the productions that a draw chooses from
* `Engine.derive`: one derivation
* `Engine.attempt`: one derivation, or none if the bound was reached
* `Engine.derivations`: what remains of a number of attempts
* `Engine.firstOf`: the first derivation among a number of attempts
* `Engine.best`: the derivation with the highest score among a number of attempts
* `Statistics`, `Engine.statistics`: what a number of attempts gives
-/

namespace GrammarSuite

/-- An engine: what it derives from, its bound and its source, the trace of the last derivation and
the records it made. -/
structure Engine (σ : Type) where
  grammar : Grammar
  bound : DepthBound
  source : σ
  history : List Step := []
  journal : Log.Journal := []

namespace Engine

variable {σ : Type} [Random.Source σ]

/-- An engine with the bound of a value. -/
def ofBound (grammar : Grammar) (bound : Json.Value) (source : σ) : Except Failure (Engine σ) :=
  (DepthBound.ofValue bound).map fun bound => { grammar, bound, source }

/-- The productions to choose from when `remaining` of `whole` steps are left: near the bound,
those that are not left-recursive, if there are any. -/
def candidates (g : Grammar) (whole remaining : Nat) (s : Symbol) : List Production :=
  let all := g.productionsFor s
  let direct := all.filter fun p => !p.isLeftRecursive
  if remaining < whole / 3 ∧ direct ≠ [] then direct else all

/-- One of a list of productions of a symbol. -/
def choose (s : Symbol) (productions : List Production) : Action σ Failure Production :=
  if productions.isEmpty then throw (.noProductions s)
  else (Random.pick productions).within id (fun t _ => t) .fault

/-- The steps from a form to a terminal form, with `remaining` expansions left. -/
def expandAll (g : Grammar) (bound : DepthBound) (remaining : Nat) (form : Form) :
    Action σ Failure (List Step) :=
  match form.splitFirst? with
  | none => pure []
  | some (before, head, after) =>
    match remaining with
    | 0 => throw (.depthExceeded ⟨bound.given, .derivation⟩)
    | left + 1 => do
      -- The pressure looks at the whole part of the bound alone.
      let p ← choose (.nonterminal head)
        (candidates g bound.whole (left + 1 - bound.excess) (.nonterminal head))
      let form := before ++ p.body ++ after
      let steps ← expandAll g bound left form
      pure (⟨form, some p⟩ :: steps)

/-- The derivation with a trace. -/
def finish (trace : List Step) : Derivation where
  text := match trace.getLast? with
    | some s => s.form.terminalText
    | none => epsilon
  steps := trace

/-- One derivation from the start symbol. -/
def derive : Action (Engine σ) Failure Derivation := Action.ofFunction fun e =>
  let first : Form := [e.grammar.start]
  match (expandAll e.grammar e.bound e.bound.limit first).runOn e.source with
  | (.ok steps, source) =>
    let trace := ⟨first, none⟩ :: steps
    (.ok (finish trace), { e with source, history := trace })
  -- What was drawn stays drawn.
  | (.error f, source) => (.error f, { e with source, history := [] })

/-- An engine with one more record. -/
def log (e : Engine σ) (level : Log.Level) (message : String) : Engine σ :=
  { e with journal := e.journal ++ [⟨level, Log.Channel.derivation, message⟩] }

/-- One derivation, or none if the bound was reached. -/
def attempt : Action (Engine σ) Failure (Option Derivation) := Action.ofFunction fun e =>
  match derive.runOn e with
  | (.ok d, e) => (.ok (some d), e)
  | (.error (.depthExceeded d), e) =>
    (.ok none, e.log .debug ("Derivation attempt discarded: " ++ d.message))
  | (.error f, e) => (.error f, e)

/-- A number of attempts, one after the other. -/
def attempts : Nat → Action (Engine σ) Failure (List (Option Derivation))
  | 0 => pure []
  | n + 1 => do
    let d ← attempt
    let rest ← attempts n
    pure (d :: rest)

/-- The derivations among a number of attempts, and a record if some attempts failed. -/
def derivations (count : Json.Value) : Action (Engine σ) Failure (List Derivation) := do
  let n ← Failure.required count.whole
  let ds := (← attempts n.toNat).reduceOption
  if ds.length < n then
    modify fun e => e.log .info ("Generated " ++ toString ds.length ++ "/" ++ count.display ++
      " strings (" ++ toString (n - ds.length) ++ " attempts exceeded depth " ++
      e.bound.given.display ++ ")")
  pure ds

/-- The text of one derivation. -/
def generate : Action (Engine σ) Failure String := Derivation.text <$> derive

/-- The texts of the derivations among a number of attempts. -/
def batch (count : Json.Value) : Action (Engine σ) Failure (List String) :=
  List.map Derivation.text <$> derivations count

/-- The first derivation among a number of attempts. -/
def firstOf (total : Nat) : Nat → Action (Engine σ) Failure Derivation
  | 0 => do
    let e ← get
    throw (.depthExceeded ⟨e.bound.given, .seed total⟩)
  | n + 1 => do
    match ← attempt with
    | some d => pure d
    | none => firstOf total n

/-- The number of attempts at a string to be mutated. -/
def seedAttempts : Nat := 10

/-- A derivation whose string is to be mutated. -/
def seedDerivation : Action (Engine σ) Failure Derivation := firstOf seedAttempts seedAttempts

/-- The better of two derivations with their scores; the first one wins a tie. -/
def better (best : Option (Derivation × Nat)) (d : Derivation) (value : Nat) :
    Option (Derivation × Nat) :=
  match best with
  | none => some (d, value)
  | some (_, value') => if value' < value then some (d, value) else best

/-- The best derivation among those found so far and a number of attempts. -/
def best (score : Derivation → Nat) :
    Nat → Option (Derivation × Nat) → Action (Engine σ) Failure (Option (Derivation × Nat))
  | 0, found => pure found
  | n + 1, found => do
    match ← attempt with
    | none => best score n found
    | some d => best score n (better found d (score d))

/-- Whether an index is outside a list of a length. -/
def isOutside (length : Nat) (index : Json.Value) : Except Json.Misuse Bool := do
  if ← index.less (.int 0) then pure true else index.reaches (.int length)

/-- The production of a symbol at an index. -/
def select (g : Grammar) (s : Symbol) (index : Json.Value) : Except Failure Production :=
  let productions := g.productionsFor s
  match isOutside productions.length index, index.whole with
  | .error m, _ => .error (.misuse m)
  | .ok true, _ => .error (.badIndex index s productions.length)
  | .ok false, .error _ => .error (.misuse (.notListPosition index.typeName))
  | .ok false, .ok n =>
    match productions[n.toNat]? with
    | some p => .ok p
    | none => .error (.badIndex index s productions.length)

/-- The body of one of the productions of a symbol, whatever the bound. -/
def expand (s : Symbol) : Action (Engine σ) Failure Form := do
  let e ← get
  let p ← (choose s (e.grammar.productionsFor s)).within Engine.source
    (fun source e => { e with source }) id
  pure p.body

end Engine

/-- What a number of attempts gives. Averages are absent where there is nothing to average. -/
structure Statistics where
  /-- The number of attempts, as it was given. -/
  samples : Json.Value
  succeeded : Nat
  averageTokens : Option Float
  minTokens : Nat
  maxTokens : Nat
  maxDepth : Nat
  uniqueCount : Nat
  /-- The share of different strings, in percent of the samples. -/
  uniqueness : Option Float

/-- What a number of attempts gives, as JSON; an absent average is zero. -/
def Statistics.toJson (s : Statistics) : Json.Value := .object [
  ("samples", s.samples),
  ("succeeded", .int s.succeeded),
  ("avg_tokens", (s.averageTokens.map .float).getD (.int 0)),
  ("min_tokens", .int s.minTokens),
  ("max_tokens", .int s.maxTokens),
  ("max_depth", .int s.maxDepth),
  ("unique_count", .int s.uniqueCount),
  ("uniqueness_ratio", (s.uniqueness.map .float).getD (.int 0))]

namespace Engine

variable {σ : Type} [Random.Source σ]

/-- The figures of the derivations among a number of attempts. -/
def statisticsOf (samples : Json.Value) (attempts : Int) (ds : List Derivation) : Statistics :=
  let lengths := ds.map fun d => (Token.tokenize d.text).length
  let unique := (ds.map Derivation.text).eraseDups.length
  { samples
    succeeded := ds.length
    averageTokens :=
      if ds.isEmpty then none
      else some (Decimal.nearest false (lengths.foldr (· + ·) 0) lengths.length)
    minTokens := lengths.min?.getD 0
    maxTokens := lengths.max?.getD 0
    maxDepth := (ds.map Derivation.depth).max?.getD 0
    uniqueCount := unique
    uniqueness :=
      if attempts = 0 then none
      else some (Decimal.nearest (attempts < 0) unique attempts.natAbs * 100.0) }

/-- The figures of a number of attempts. -/
def statistics (samples : Json.Value) : Action (Engine σ) Failure Statistics := do
  let attempts ← Failure.required samples.whole
  statisticsOf samples attempts <$> derivations samples

end Engine

end GrammarSuite
