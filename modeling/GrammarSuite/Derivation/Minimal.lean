import GrammarSuite.Derivation.Bound

/-!
# The minimal derivation

A derivation without chance: the first nonterminal of the form is always expanded by its simplest
production, the one with the fewest nonterminals, then the shortest body, then the earliest
declaration.

## Main definitions

* `Grammar.simplest?`: the simplest production of a symbol
* `Grammar.minimalDerivation`: the text of the minimal derivation and its number of steps
-/

namespace GrammarSuite

/-- Whether a production is simpler than another one. -/
def Production.simplerThan (p q : Production) : Bool :=
  p.nonterminalCount < q.nonterminalCount ||
    (p.nonterminalCount == q.nonterminalCount && p.body.length < q.body.length)

namespace Grammar

open Json (Value)

/-- The simplest production of a list; the first one wins a tie. -/
def simplestOf : List Production → Option Production
  | [] => none
  | p :: rest => some (rest.foldl (fun best q => if q.simplerThan best then q else best) p)

/-- The simplest production of a symbol. -/
def simplest? (g : Grammar) (s : Symbol) : Option Production := simplestOf (g.productionsFor s)

/-- The simplest production of a symbol, or the failure that it has none. -/
def simplest (g : Grammar) (s : Symbol) : Except Failure Production :=
  match g.simplest? s with
  | some p => .ok p
  | none => .error (.noProductions s)

/-- Expands a form to a terminal one in at most `remaining` steps, and counts on. -/
def minimize (g : Grammar) (limit : Value) (remaining : Nat) (form : Form) (steps : Nat) :
    Except Failure (Form × Nat) :=
  match form.splitFirst? with
  | none => .ok (form, steps)
  | some (before, head, after) =>
    match remaining with
    | 0 => .error (.depthExceeded ⟨limit, .minimal⟩)
    | left + 1 =>
      match g.simplest (.nonterminal head) with
      | .error f => .error f
      | .ok p => g.minimize limit left (before ++ p.body ++ after) (steps + 1)

/-- The least number of steps that reaches a limit. A limit that no number reaches allows as many
steps as an unlimited bound. -/
def stepsUpTo (limit : Json.Number) : Nat :=
  match limit with
  | .whole n => n.toNat
  | .double x =>
    match Decimal.fraction? x with
    | some (numerator, denominator) => (-((-numerator) / denominator)).toNat
    | none => if x < 0.0 then 0 else DepthBound.unlimited

/-- The text of the minimal derivation and its number of steps, at most `limit`, which must be a
number if there is anything to expand. -/
def minimalDerivation (g : Grammar) (limit : Value) : Except Failure (String × Nat) :=
  let start : Form := [g.start]
  match limit.number? with
  | some n =>
    (g.minimize limit (stepsUpTo n) start 0).map fun (form, steps) => (form.terminalText, steps)
  | none =>
    if start.hasNonterminal then
      .error (.misuse (.unordered ">=" (Value.int 0).typeName limit.typeName))
    else .ok (start.terminalText, 0)

/-- The usual limit of the minimal derivation. -/
def minimalStepLimit : Value := .int 1000

/-- A limit that is a whole number allows as many steps, and none if it is negative. -/
theorem minimalDerivation_int (g : Grammar) (limit : Int) :
    g.minimalDerivation (.int limit) = (g.minimize (.int limit) limit.toNat [g.start] 0).map
      fun (form, steps) => (form.terminalText, steps) := by
  simp [minimalDerivation, Value.number?, stepsUpTo]

end Grammar

end GrammarSuite
