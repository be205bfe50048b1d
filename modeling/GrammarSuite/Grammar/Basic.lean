import GrammarSuite.Grammar.Error
import GrammarSuite.Json.Value
import GrammarSuite.Log.Record

/-!
# Context-free grammars

A grammar declares nonterminals and terminals, and has a list of productions in the order of their
declaration and a start symbol. It is consistent by its type: the start symbol and all heads are
declared nonterminals, and every symbol of a body is declared according to its kind.
`Grammar.ofParts` checks this and reports the first violation, in the order start, then each
production, its head before its body.

## Main definitions

* `Production.Declared`: all symbols of a production are declared
* `Grammar`, `Grammar.ofParts`: a consistent grammar, and its construction
* `Grammar.productionsFor`: the productions of a symbol
* `Grammar.add`: a grammar with one more production
* `Grammar.describe`: the grammar as a text

## Main results

* `Production.violation?_eq_none_iff`: a production without violation is declared
* `Grammar.mem_of_ofParts`: the parts of a constructed grammar
* `Grammar.exists_ofParts`: declared parts make a grammar
-/

namespace GrammarSuite

/-- A symbol is declared if it belongs to the set of its kind. -/
def Symbol.Declared (nonterminals terminals : List Symbol) : Symbol → Prop
  | .nonterminal n => .nonterminal n ∈ nonterminals
  | .terminal n => .terminal n ∈ terminals

namespace Production

/-- All symbols of a production are declared. -/
def Declared (nonterminals terminals : List Symbol) (p : Production) : Prop :=
  p.headSymbol ∈ nonterminals ∧ ∀ s ∈ p.body, s.Declared nonterminals terminals

/-- The violation at one symbol of a body. -/
def symbolViolation? (nonterminals terminals : List Symbol) (p : Production) (s : Symbol) :
    Option Violation :=
  match s with
  | .nonterminal n => if .nonterminal n ∈ nonterminals then none else some (.nonterminal n p)
  | .terminal n => if .terminal n ∈ terminals then none else some (.terminal n p)

/-- The first violation in a production: its head comes before its body. -/
def violation? (nonterminals terminals : List Symbol) (p : Production) : Option Violation :=
  if p.headSymbol ∈ nonterminals then p.body.findSome? (symbolViolation? nonterminals terminals p)
  else some (.head p)

theorem symbolViolation?_eq_none_iff {nonterminals terminals : List Symbol} {p : Production}
    {s : Symbol} :
    symbolViolation? nonterminals terminals p s = none ↔ s.Declared nonterminals terminals := by
  cases s <;> simp [symbolViolation?, Symbol.Declared]

/-- A production without violation is declared, and the other way round. -/
theorem violation?_eq_none_iff {nonterminals terminals : List Symbol} {p : Production} :
    p.violation? nonterminals terminals = none ↔ p.Declared nonterminals terminals := by
  unfold violation? Declared
  by_cases h : p.headSymbol ∈ nonterminals <;>
    simp [h, List.findSome?_eq_none_iff, symbolViolation?_eq_none_iff]

end Production

/-- A context-free grammar whose symbols are declared. -/
structure Grammar where
  /-- The name, which may be any value. -/
  name : Json.Value
  nonterminals : List Symbol
  terminals : List Symbol
  /-- The productions, in the order of their declaration. -/
  productions : List Production
  start : Symbol
  start_mem : start ∈ nonterminals
  declared : ∀ p ∈ productions, p.Declared nonterminals terminals

namespace Grammar

/-- A grammar from its parts, or the first violation. Repeated nonterminals and terminals count
once. -/
def ofParts (name : Json.Value) (nonterminals terminals : List Symbol)
    (productions : List Production) (start : Symbol) : Except Violation Grammar :=
  let nonterminals := nonterminals.eraseDups
  let terminals := terminals.eraseDups
  if hstart : start ∈ nonterminals then
    match hbody : productions.findSome? (Production.violation? nonterminals terminals) with
    | some v => .error v
    | none =>
      .ok { name, nonterminals, terminals, productions, start, start_mem := hstart
            declared := fun p hp => Production.violation?_eq_none_iff.1
              (List.findSome?_eq_none_iff.1 hbody p hp) }
  else .error (.start start)

/-- The parts of a grammar are those it was constructed from. -/
theorem mem_of_ofParts {name : Json.Value} {nonterminals terminals : List Symbol}
    {productions : List Production} {start : Symbol} {g : Grammar}
    (h : ofParts name nonterminals terminals productions start = .ok g) :
    g.name = name ∧ g.productions = productions ∧ g.start = start ∧
      (∀ s, s ∈ g.nonterminals ↔ s ∈ nonterminals) ∧
      (∀ s, s ∈ g.terminals ↔ s ∈ terminals) := by
  unfold ofParts at h
  dsimp only at h
  split at h
  · split at h
    · cases h
    · cases h
      simp
  · cases h

/-- Parts make a grammar if the start symbol and all symbols of the productions are declared. -/
theorem exists_ofParts {nonterminals terminals : List Symbol} {productions : List Production}
    {start : Symbol} (name : Json.Value) (hstart : start ∈ nonterminals)
    (hdeclared : ∀ p ∈ productions, p.Declared nonterminals terminals) :
    ∃ g, ofParts name nonterminals terminals productions start = .ok g := by
  have hsame : ∀ s : Symbol, s.Declared nonterminals.eraseDups terminals.eraseDups ↔
      s.Declared nonterminals terminals := by
    intro s
    cases s <;> simp [Symbol.Declared]
  have hnone : productions.findSome?
      (Production.violation? nonterminals.eraseDups terminals.eraseDups) = none := by
    refine List.findSome?_eq_none_iff.2 fun p hp => Production.violation?_eq_none_iff.2 ?_
    obtain ⟨hhead, hbody⟩ := hdeclared p hp
    exact ⟨List.mem_eraseDups.2 hhead, fun s hs => (hsame s).2 (hbody s hs)⟩
  unfold ofParts
  dsimp only
  rw [dif_pos (List.mem_eraseDups.2 hstart)]
  split
  · rename_i hsome
    rw [hnone] at hsome
    cases hsome
  · exact ⟨_, rfl⟩

/-- The productions of a symbol, in the order of their declaration. -/
def productionsFor (g : Grammar) (s : Symbol) : List Production :=
  g.productions.filter (·.headSymbol = s)

/-- Whether a symbol has a production. -/
def hasProductions (g : Grammar) (s : Symbol) : Bool := g.productions.any (·.headSymbol = s)

/-- A grammar with one more production at the end; `false` and the same grammar if the production
is there already. -/
def add (g : Grammar) (p : Production) : Except Violation (Bool × Grammar) :=
  if p ∈ g.productions then .ok (false, g)
  else
    match h : p.violation? g.nonterminals g.terminals with
    | some v => .error v
    | none =>
      .ok (true, { g with
        productions := g.productions ++ [p]
        declared := fun q hq => by
          rcases List.mem_append.1 hq with hq | hq
          · exact g.declared q hq
          · rw [List.mem_singleton.1 hq]
            exact Production.violation?_eq_none_iff.1 h })

/-- The name in a text. -/
def shownName (g : Grammar) : String := g.name.display

/-- The names of symbols in the order of their code points. -/
def sortedNames (symbols : List Symbol) : List String :=
  (symbols.map Symbol.name).mergeSort (fun a b => !Text.precedes b a)

/-- The grammar as a text of several lines. -/
def describe (g : Grammar) : String :=
  let set (symbols : List Symbol) := "\x7b " ++ ", ".intercalate (sortedNames symbols) ++ " \x7d"
  Text.unlines <|
    ["Context-free grammar '" ++ g.shownName ++ "':",
      "V = " ++ set g.nonterminals,
      "Σ = " ++ set g.terminals,
      "S = " ++ g.start.name,
      "R = \x7b"] ++
    g.productions.map (fun p => "  " ++ p.text) ++ ["\x7d"]

/-- The record of a grammar that was found consistent. -/
def checkedRecord (g : Grammar) : Log.Record where
  level := .debug
  channel := Log.Channel.grammar
  message := "Grammar '" ++ g.shownName ++ "' validated: " ++ toString g.nonterminals.length ++
    " variables, " ++ toString g.terminals.length ++ " terminals, " ++
    toString g.productions.length ++ " productions"

end Grammar

end GrammarSuite
