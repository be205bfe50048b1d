import GrammarSuite.Grammar.Builtin
import GrammarSuite.Proofs.Grammar.Rewriting
import GrammarSuite.Proofs.Text.Words

/-!
# Arithmetic expressions

The two built-in grammars of arithmetic differ in their operators and operands and in the names of
their nonterminals. What they share, and what edits of their texts break, is that every body counts
for one operand, opens as many parentheses as it closes, never opens one just to close it, and uses
the tokens of arithmetic only. A grammar of such productions generates nothing but expressions.

## Main definitions

* `IsExpression`: what the tokens of an expression keep to
* `Production.IsArithmetic`: what a production of arithmetic keeps to

## Main results

* `Grammar.Generates.isExpression`: a grammar of arithmetic productions generates expressions
* `Builtin.parts?_arithmetic`, `Builtin.parts?_fullArithmetic`: the built-in grammars, read
* `Builtin.isArithmetic`: the built-in grammars of arithmetic have arithmetic productions
-/

namespace GrammarSuite

open Text

/-- The operands of arithmetic. -/
def operands : List String := ["id", "num"]

/-- The tokens of arithmetic. -/
def arithmeticTokens : List String :=
  Token.operators ++ [Token.openParen, Token.closeParen] ++ operands

/-- What a token counts for when operators are taken off operands. -/
def surplus (t : String) : Int := if t ∈ operands then 1 else if Token.isOperator t then -1 else 0

/-- What a token counts for when closing parentheses are taken off opening ones. -/
def level (t : String) : Int :=
  if t = Token.openParen then 1 else if t = Token.closeParen then -1 else 0

/-- Two tokens may stand side by side unless they are an opening and a closing parenthesis. -/
def MayFollow (t u : String) : Prop := t ≠ Token.openParen ∨ u ≠ Token.closeParen

/-- The tokens of an expression: they are those of arithmetic, with one operand more than operators,
as many opening parentheses as closing ones, and none opened just to be closed. -/
structure IsExpression (tokens : List String) : Prop where
  mem : ∀ t ∈ tokens, t ∈ arithmeticTokens
  surplus_eq : weight surplus tokens = 1
  level_eq : weight level tokens = 0
  chain : tokens.IsChain MayFollow

theorem isWord_of_mem_arithmeticTokens {t : String} (h : t ∈ arithmeticTokens) :
    IsWord t.toList := by
  have hall : ∀ u ∈ arithmeticTokens, IsWord u.toList := by decide
  exact hall t h

namespace IsExpression

variable {tokens : List String}

theorem ne_nil (h : IsExpression tokens) : tokens ≠ [] := by
  rintro rfl
  exact absurd h.surplus_eq (by decide)

theorem isWord (h : IsExpression tokens) : ∀ t ∈ tokens, IsWord t.toList :=
  fun t ht => isWord_of_mem_arithmeticTokens (h.mem t ht)

end IsExpression

/-! ## Productions of arithmetic -/

namespace Symbol

/-- A number for each symbol: that of its name for a terminal, and a fixed one for a nonterminal. -/
def valued (f : String → Int) (n : Int) : Symbol → Int
  | .terminal t => f t
  | .nonterminal _ => n

/-- Two symbols may stand side by side unless they are an opening and a closing parenthesis. -/
def MayFollow (s t : Symbol) : Prop :=
  s ≠ .terminal Token.openParen ∨ t ≠ .terminal Token.closeParen

instance : DecidableRel MayFollow := fun _ _ => inferInstanceAs (Decidable (_ ∨ _))

/-- A symbol of arithmetic is a nonterminal or one of its tokens. -/
def IsArithmetic : Symbol → Prop
  | .terminal t => t ∈ arithmeticTokens
  | .nonterminal _ => True

instance : DecidablePred IsArithmetic
  | .terminal t => inferInstanceAs (Decidable (t ∈ arithmeticTokens))
  | .nonterminal _ => inferInstanceAs (Decidable True)

end Symbol

/-- A production of arithmetic has a body of its symbols that counts for one operand, with as many
opening parentheses as closing ones, none opened just to be closed, no closing one in front and no
opening one at the end. -/
structure Production.IsArithmetic (p : Production) : Prop where
  ne_nil : p.body ≠ []
  mem : ∀ s ∈ p.body, s.IsArithmetic
  surplus_eq : weight (Symbol.valued surplus 1) p.body = 1
  level_eq : weight (Symbol.valued level 0) p.body = 0
  chain : p.body.IsChain Symbol.MayFollow
  first : p.body.head? ≠ some (.terminal Token.closeParen)
  last : p.body.getLast? ≠ some (.terminal Token.openParen)

instance : DecidablePred Production.IsArithmetic := fun p =>
  decidable_of_iff
    (p.body ≠ [] ∧ (∀ s ∈ p.body, s.IsArithmetic) ∧
      weight (Symbol.valued surplus 1) p.body = 1 ∧ weight (Symbol.valued level 0) p.body = 0 ∧
      p.body.IsChain Symbol.MayFollow ∧ p.body.head? ≠ some (.terminal Token.closeParen) ∧
      p.body.getLast? ≠ some (.terminal Token.openParen))
    ⟨fun ⟨h₁, h₂, h₃, h₄, h₅, h₆, h₇⟩ => ⟨h₁, h₂, h₃, h₄, h₅, h₆, h₇⟩,
      fun ⟨h₁, h₂, h₃, h₄, h₅, h₆, h₇⟩ => ⟨h₁, h₂, h₃, h₄, h₅, h₆, h₇⟩⟩

/-- The tokens of a terminal form of a grammar of arithmetic productions are an expression. -/
theorem Grammar.Derives.isExpression {g : Grammar} {names : List String}
    (hg : ∀ p ∈ g.productions, p.IsArithmetic) (hstart : g.start.isNonterminal = true)
    (h : g.Derives [g.start] (names.map .terminal)) : IsExpression names := by
  obtain ⟨name, hname⟩ := Symbol.exists_eq_nonterminal hstart
  rw [hname] at h
  -- A nonterminal stands for an operand, outside of all parentheses, and beside any symbol. With that
  -- each of the four properties is one that rewriting keeps.
  refine ⟨?_, ?_, ?_, ?_⟩
  · have hmem := h.forall_mem (P := Symbol.IsArithmetic) (fun p hp => (hg p hp).mem)
      (by simp [Symbol.IsArithmetic])
    intro t ht
    exact hmem (.terminal t) (List.mem_map_of_mem ht)
  · have hsurplus := h.weight_eq fun p hp => (hg p hp).surplus_eq
    rwa [weight_map] at hsurplus
  · have hlevel := h.weight_eq fun p hp => (hg p hp).level_eq
    rwa [weight_map] at hlevel
  · have hchain := h.isChain (R := Symbol.MayFollow) (fun p hp => (hg p hp).ne_nil)
      (fun p hp => (hg p hp).chain)
      (fun p hp s x hx _ => .inr fun heq => (hg p hp).first (heq ▸ hx))
      (fun p hp s x hx _ => .inl fun heq => (hg p hp).last (heq ▸ hx)) (by simp)
    rw [List.isChain_map] at hchain
    exact hchain.imp fun t u htu => by simpa [MayFollow, Symbol.MayFollow] using htu

/-- **A grammar of arithmetic productions generates expressions only**, each as its tokens with
single blanks between them. -/
theorem Grammar.Generates.isExpression {g : Grammar} {text : String}
    (hg : ∀ p ∈ g.productions, p.IsArithmetic) (hstart : g.start.isNonterminal = true)
    (h : g.Generates text) :
    IsExpression (Token.tokenize text) ∧ text = unwords (Token.tokenize text) := by
  obtain ⟨form, hderives, hterminal, rfl⟩ := h
  have hform := Form.eq_map_terminal hterminal
  rw [hform] at hderives
  have hexpression := hderives.isExpression hg hstart
  -- The empty form, which would be shown by a sign of its own, has no operand.
  have hne : form ≠ [] := by
    rintro rfl
    exact hexpression.ne_nil rfl
  have htext : form.terminalText = unwords form.terminals := by
    rw [Form.terminalText, if_neg (by simpa using hne)]
  rw [htext, Token.tokenize_unwords_of_isWord hexpression.isWord]
  exact ⟨hexpression, rfl⟩

/-! ## The built-in grammars -/

namespace Builtin

/-- The start symbol and the productions of a built-in grammar. -/
def parts? (b : Builtin) : Option (Symbol × List Production) :=
  b.grammar.toOption.map fun g => (g.start, g.productions)

theorem parts?_eq_some_iff {b : Builtin} {start : Symbol} {productions : List Production} :
    b.parts? = some (start, productions) ↔
      ∃ g, b.grammar = .ok g ∧ g.start = start ∧ g.productions = productions := by
  rw [parts?]
  cases b.grammar <;> simp [Except.toOption]

theorem parts?_arithmetic : parts? .arithmetic = some (.nonterminal "E",
    [⟨"E", [.nonterminal "E", .terminal "+", .nonterminal "T"]⟩,
      ⟨"E", [.nonterminal "T"]⟩,
      ⟨"T", [.nonterminal "T", .terminal "*", .nonterminal "F"]⟩,
      ⟨"T", [.nonterminal "F"]⟩,
      ⟨"F", [.terminal "(", .nonterminal "E", .terminal ")"]⟩,
      ⟨"F", [.terminal "id"]⟩]) := by
  decide +kernel

theorem parts?_fullArithmetic : parts? .fullArithmetic = some (.nonterminal "Expr",
    [⟨"Expr", [.nonterminal "Expr", .terminal "+", .nonterminal "Term"]⟩,
      ⟨"Expr", [.nonterminal "Expr", .terminal "-", .nonterminal "Term"]⟩,
      ⟨"Expr", [.nonterminal "Term"]⟩,
      ⟨"Term", [.nonterminal "Term", .terminal "*", .nonterminal "Factor"]⟩,
      ⟨"Term", [.nonterminal "Term", .terminal "/", .nonterminal "Factor"]⟩,
      ⟨"Term", [.nonterminal "Factor"]⟩,
      ⟨"Factor", [.terminal "(", .nonterminal "Expr", .terminal ")"]⟩,
      ⟨"Factor", [.terminal "id"]⟩,
      ⟨"Factor", [.terminal "num"]⟩]) := by
  decide +kernel

/-- **The built-in grammars of arithmetic have arithmetic productions**, and start at a
nonterminal. -/
theorem isArithmetic {b : Builtin} (hb : b = .arithmetic ∨ b = .fullArithmetic) {g : Grammar}
    (hg : b.grammar = .ok g) :
    (∀ p ∈ g.productions, p.IsArithmetic) ∧ g.start.isNonterminal = true := by
  have hparts := parts?_eq_some_iff.2 ⟨g, hg, rfl, rfl⟩
  rcases hb with rfl | rfl
  · rw [parts?_arithmetic, Option.some.injEq, Prod.mk.injEq] at hparts
    rw [← hparts.1, ← hparts.2]
    decide
  · rw [parts?_fullArithmetic, Option.some.injEq, Prod.mk.injEq] at hparts
    rw [← hparts.1, ← hparts.2]
    decide

end Builtin

end GrammarSuite
