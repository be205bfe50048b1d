import GrammarSuite.Text.Blank
import GrammarSuite.Text.Quoted

/-!
# Symbols, forms and productions

The symbols of a grammar are terminals and nonterminals, told apart by their kind and not by their
name. A sentential form is a list of symbols; a production replaces its head, a nonterminal, by its
body.

## Main definitions

* `Symbol`, `Form`, `Production`
* `Form.text`: a form as it is shown, with `ε` for the empty form
* `Form.terminalText`: the terminals of a form
* `Form.splitFirst?`: a form cut at its first nonterminal
* `Production.text`: a production as it is shown
-/

namespace GrammarSuite

/-- A symbol of a grammar. -/
inductive Symbol where
  | terminal (name : String)
  | nonterminal (name : String)
  deriving DecidableEq, Repr

namespace Symbol

/-- The name of a symbol, whatever its kind. -/
def name : Symbol → String
  | terminal n => n
  | nonterminal n => n

/-- Whether a symbol is a nonterminal. -/
def isNonterminal : Symbol → Bool
  | terminal _ => false
  | nonterminal _ => true

/-- A symbol with its kind, as it is shown in a message. -/
def literal : Symbol → String
  | terminal n => "Terminal(value=" ++ Text.quoted n ++ ")"
  | nonterminal n => "NonTerminal(value=" ++ Text.quoted n ++ ")"

end Symbol

/-- The sign for nothing: an empty form or an empty body. -/
def epsilon : String := "ε"

/-- A sentential form. -/
abbrev Form := List Symbol

namespace Form

/-- Whether a form can still be expanded. -/
def hasNonterminal (form : Form) : Bool := form.any Symbol.isNonterminal

/-- A form as it is shown: the names of its symbols, or `ε`. -/
def text (form : Form) : String :=
  if form.isEmpty then epsilon else Text.unwords (form.map Symbol.name)

/-- The names of the terminals of a form. -/
def terminals : Form → List String
  | [] => []
  | .terminal n :: rest => n :: terminals rest
  | .nonterminal _ :: rest => terminals rest

/-- The terminals of a form as it is shown, or `ε` for the empty form. -/
def terminalText (form : Form) : String :=
  if form.isEmpty then epsilon else Text.unwords form.terminals

/-- The parts of a form before and after its first nonterminal, and the name of that one. -/
def splitFirst? : Form → Option (Form × String × Form)
  | [] => none
  | .nonterminal n :: rest => some ([], n, rest)
  | .terminal n :: rest =>
    (splitFirst? rest).map fun (before, head, after) => (.terminal n :: before, head, after)

/-- Cutting a form at its first nonterminal loses nothing, and only terminals stand before it. -/
theorem splitFirst?_eq_some {form before after : Form} {head : String}
    (h : form.splitFirst? = some (before, head, after)) :
    form = before ++ .nonterminal head :: after ∧ before.hasNonterminal = false := by
  induction form generalizing before with
  | nil => simp [splitFirst?] at h
  | cons s rest ih =>
    cases s with
    | nonterminal n =>
      simp only [splitFirst?, Option.some.injEq, Prod.mk.injEq] at h
      obtain ⟨rfl, rfl, rfl⟩ := h
      simp [hasNonterminal]
    | terminal n =>
      simp only [splitFirst?, Option.map_eq_some_iff] at h
      obtain ⟨⟨b, a, c⟩, hrest, heq⟩ := h
      simp only [Prod.mk.injEq] at heq
      obtain ⟨rfl, rfl, rfl⟩ := heq
      obtain ⟨hform, hbefore⟩ := ih hrest
      simp only [hasNonterminal] at hbefore ⊢
      simp [hform, hbefore, Symbol.isNonterminal]

/-- A form has no first nonterminal exactly if it has none at all. -/
theorem splitFirst?_eq_none_iff {form : Form} :
    form.splitFirst? = none ↔ form.hasNonterminal = false := by
  induction form with
  | nil => simp [splitFirst?, hasNonterminal]
  | cons s rest ih =>
    simp only [hasNonterminal] at ih
    cases s <;> simp [splitFirst?, hasNonterminal, Symbol.isNonterminal, ih]

end Form

/-- A production: its head, the name of a nonterminal, is replaced by its body. -/
structure Production where
  head : String
  body : Form
  deriving DecidableEq, Repr

namespace Production

/-- The head of a production as a symbol. -/
def headSymbol (p : Production) : Symbol := .nonterminal p.head

/-- A production from symbols; fails with the head if that is a terminal. -/
def ofSymbols (head : Symbol) (body : Form) : Except Symbol Production :=
  match head with
  | .nonterminal n => .ok ⟨n, body⟩
  | .terminal n => .error (.terminal n)

/-- The report of a head that is a terminal. -/
def headMessage (head : Symbol) : String :=
  "Production left side must be a NonTerminal, got " ++ head.literal

/-- The report of an attempt to change a production. -/
def immutableMessage : String := "Production is immutable"

/-- Whether a production erases its head. -/
def isEpsilon (p : Production) : Bool := p.body.isEmpty

/-- Whether the body of a production starts with its head. -/
def isLeftRecursive (p : Production) : Bool := p.body.head? == some p.headSymbol

/-- The number of nonterminals in the body. -/
def nonterminalCount (p : Production) : Nat := p.body.countP Symbol.isNonterminal

/-- A production as it is shown. -/
def text (p : Production) : String := p.head ++ " → " ++ p.body.text

/-- A production with the kinds of its symbols, as it is shown in a message. -/
def literal (p : Production) : String :=
  "Production(" ++ p.headSymbol.literal ++ ", [" ++ ", ".intercalate (p.body.map Symbol.literal) ++
    "])"

end Production

end GrammarSuite
