import GrammarSuite.Grammar.Basic
import GrammarSuite.Random.Source
import GrammarSuite.Json.Number

/-!
# Derivations

A derivation is the trace of its sentential forms, each with the production that gave it, and the
terminal text of the last one.

## Main definitions

* `Step`, `Derivation`: a derivation step by step
* `Failure`: why a derivation, or what is made of it, does not come to an end
* `Derivation.depth`, `Derivation.expansions`: the length of the trace, and one less
* `historyText`: a trace as a text
-/

namespace GrammarSuite

/-- One sentential form, and the production that gave it, if it is not the first form. -/
structure Step where
  form : Form
  production : Option Production
  deriving DecidableEq, Repr

namespace Step

/-- What was done in a step. -/
def label (s : Step) : String :=
  match s.production with
  | none => "Initial sentential form"
  | some p => "Expand " ++ p.head

/-- A step as it is shown. -/
def text (s : Step) : String :=
  match s.production with
  | none => s.form.text
  | some p => s.form.text ++ " (applying: " ++ p.text ++ ")"

end Step

/-- A derivation that came to an end: its text and its trace. -/
structure Derivation where
  text : String
  steps : List Step
  deriving DecidableEq, Repr

namespace Derivation

/-- The length of the trace, the first form included. -/
def depth (d : Derivation) : Nat := d.steps.length

/-- The number of productions that were applied, one less than the length of the trace. -/
def expansions (d : Derivation) : Int := (d.steps.length : Int) - 1

end Derivation

/-- A trace as a text of several lines. -/
def historyText (trace : List Step) : String :=
  Text.unlines <| "Derivation history:" :: String.ofList (List.replicate 50 '-') ::
    trace.zipIdx.map fun (s, i) => "Step " ++ toString i ++ ": " ++ s.text

/-- Why a derivation, or what is made of derivations, does not come to an end. -/
inductive Failure
  | depthExceeded (e : DepthExceeded)
  | noProductions (symbol : Symbol)
  /-- A bound of derivations must be at least one. -/
  | badBound (bound : Json.Value)
  /-- A symbol has no production at an index. -/
  | badIndex (index : Json.Value) (symbol : Symbol) (available : Nat)
  | fault (f : Random.Fault)
  /-- A value from outside is used in a way that its kind does not allow. -/
  | misuse (m : Json.Misuse)

/-- The wording of a failure. -/
def Failure.message : Failure → String
  | depthExceeded e => e.message
  | noProductions s => noProductionsMessage s
  | badBound v => "max_depth must be at least 1, got " ++ v.display
  | badIndex i s n =>
    "Production index " ++ i.display ++ " out of range for '" ++ s.name ++ "' (" ++ toString n ++
      " available)"
  | fault f => f.message
  | misuse m => m.message

/-- An action that needs what a value stands for. -/
def Failure.required {σ α : Type} : Except Json.Misuse α → Action σ Failure α
  | .ok a => pure a
  | .error m => throw (.misuse m)

end GrammarSuite
