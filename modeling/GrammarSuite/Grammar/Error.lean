import GrammarSuite.Grammar.Symbol
import GrammarSuite.Json.Misuse

/-!
# Errors of grammars and derivations

The ways in which reading a grammar, checking it, or deriving from it can fail. Each error is
its cause; the wording stands in one function per error.

## Main definitions

* `Malformed`: a text is no grammar
* `Violation`: a grammar is inconsistent
* `DepthExceeded`: a derivation did not end within its bound
* `GrammarError`: any of these, a nonterminal that cannot be expanded, or a value that is no text
-/

namespace GrammarSuite

/-- A text is no grammar. The place is the number and the text of a line. -/
structure Malformed where
  reason : String
  lineNumber : Option Int := none
  line : Option String := none
  deriving DecidableEq, Repr

/-- A report with its place: the number of a line and, below the report, the line. -/
def Malformed.placed (reason : String) (lineNumber line : Option String) : String :=
  match lineNumber with
  | none => reason
  | some n =>
    let report := "Line " ++ n ++ ": " ++ reason
    match line with
    | none => report
    | some line => report ++ "\n  " ++ line

/-- The report of a malformed text, with its place if that is known. -/
def Malformed.message (m : Malformed) : String := placed m.reason (m.lineNumber.map toString) m.line

/-- An inconsistency of a grammar: a symbol that is used and not declared. -/
inductive Violation
  | start (symbol : Symbol)
  | head (production : Production)
  | nonterminal (name : String) (production : Production)
  | terminal (name : String) (production : Production)
  deriving DecidableEq, Repr

/-- The wording of a violation. -/
def Violation.message : Violation → String
  | start s => "Start symbol '" ++ s.name ++ "' is not in the variable set V"
  | head p => "Production '" ++ p.text ++ "' has a left side that is not in V"
  | nonterminal n p => "Non-terminal '" ++ n ++ "' in production '" ++ p.text ++ "' is not in V"
  | terminal n p => "Terminal '" ++ n ++ "' in production '" ++ p.text ++ "' is not in Σ"

/-- The search in which a bound was reached. -/
inductive Search
  | derivation
  | minimal
  /-- The search for a string to mutate, with its number of attempts. -/
  | seed (attempts : Nat)
  | deepest
  | longest
  /-- Any other search, with its own report. -/
  | other (report : String)
  deriving DecidableEq, Repr

/-- A search for a terminal form reached its bound, which is kept as it was given. -/
structure DepthExceeded where
  bound : Json.Value
  search : Search

/-- The report of a bound that was reached in a derivation. -/
def DepthExceeded.derivationMessage (bound : Json.Value) : String :=
  "Maximum derivation depth (" ++ bound.display ++ ") reached before the form became terminal"

/-- The wording of a bound that was reached. -/
def DepthExceeded.message (e : DepthExceeded) : String :=
  match e.search with
  | .derivation => derivationMessage e.bound
  | .minimal => "Minimal derivation did not terminate within " ++ e.bound.display ++ " steps"
  | .seed attempts =>
    "No valid string derived in " ++ toString attempts ++ " attempts (depth " ++
      e.bound.display ++ ")"
  | .deepest =>
    "Could not generate a max-depth case: every trial exceeded depth " ++ e.bound.display
  | .longest =>
    "Could not generate a long expression: every trial exceeded depth " ++ e.bound.display
  | .other report => report

/-- The report of a nonterminal that cannot be expanded. -/
def noProductionsMessage (symbol : Symbol) : String :=
  "No productions defined for non-terminal '" ++ symbol.name ++ "'"

/-- A failure that has to do with a grammar. -/
inductive GrammarError
  | malformed (m : Malformed)
  | invalid (v : Violation)
  | depthExceeded (e : DepthExceeded)
  | noProductions (symbol : Symbol)
  /-- A value stands for the text of a grammar and is none. -/
  | misuse (m : Json.Misuse)

/-- The wording of a failure. -/
def GrammarError.message : GrammarError → String
  | misuse m => m.message
  | malformed m => m.message
  | invalid v => v.message
  | depthExceeded e => e.message
  | noProductions s => noProductionsMessage s

end GrammarSuite
