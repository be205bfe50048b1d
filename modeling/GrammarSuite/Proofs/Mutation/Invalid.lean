import GrammarSuite.Proofs.Derivation.Engine
import GrammarSuite.Proofs.Grammar.Arithmetic
import GrammarSuite.Proofs.Mutation.Edits

/-!
# Edited expressions are no expressions

Every edit that changes the tokens of an expression breaks one of the things that expressions keep to:
a token too many or too few upsets the count of the operands or of the parentheses, empty
parentheses stand side by side, and a foreign character or a piece of an operand is no token of
arithmetic. Only three kinds of edits may change nothing, each where it finds nothing to remove or to
cut.

## Main results

* `Edit.not_isExpression`: an edit that changes an expression leaves none
* `Edit.unchanged`: which edits change nothing
* `Mutator.mutate_returns`: a mutation does what the edit of its kind does
* `Mutator.mutation_is_invalid`: the mutations of a derived expression are invalid
-/

namespace GrammarSuite

open GrammarSuite.Random GrammarSuite.Text GrammarSuite.Action

/-! ## What the tokens of arithmetic count for -/

theorem level_ne_zero_of_isParen {t : String} (h : Token.isParen t = true) : level t ≠ 0 := by
  rw [Token.isParen, decide_eq_true_eq] at h
  rcases h with rfl | rfl <;> decide

theorem isWord_of_isParen {t : String} (h : Token.isParen t = true) : IsWord t.toList := by
  rw [Token.isParen, decide_eq_true_eq] at h
  rcases h with rfl | rfl <;> decide

theorem surplus_of_mem_operators {t : String} (h : t ∈ Token.operators) : surplus t = -1 := by
  have hall : ∀ u ∈ Token.operators, surplus u = -1 := by decide
  exact hall t h

/-- The only token of arithmetic that starts with the usual spelling of identifiers is an operand. -/
theorem surplus_of_isIdentifier {t : String} (hmem : t ∈ arithmeticTokens)
    (h : Token.isIdentifier Token.defaultIdentifier t = true) : surplus t = 1 := by
  have hall : ∀ u ∈ arithmeticTokens,
      Token.isIdentifier Token.defaultIdentifier u = true → surplus u = 1 := by decide
  exact hall t hmem h

theorem not_mem_arithmeticTokens {t : String} (h : t ∈ MutationKind.invalidCharacters) :
    t ∉ arithmeticTokens := by
  have hall : ∀ u ∈ MutationKind.invalidCharacters, u ∉ arithmeticTokens := by decide
  exact hall t h

/-- The pieces of a token of arithmetic are words, and the first one is no token of arithmetic. -/
theorem split_of_mem_arithmeticTokens {t : String} {n : Nat} (hmem : t ∈ arithmeticTokens)
    (hpos : 0 < n) (hlt : n < size t) :
    (Text.split n t).1 ∉ arithmeticTokens ∧ IsWord (Text.split n t).1.toList ∧
      IsWord (Text.split n t).2.toList := by
  have hall : ∀ u ∈ arithmeticTokens, ∀ k < size u, 0 < k →
      (Text.split k u).1 ∉ arithmeticTokens ∧ IsWord (Text.split k u).1.toList ∧
        IsWord (Text.split k u).2.toList := by decide
  exact hall t hmem n hlt hpos

namespace IsExpression

variable {before after : List String} {t : String}

/-- A token by which two expressions differ counts for nothing. -/
theorem eq_zero_of_insert (h : IsExpression (before ++ t :: after))
    (h' : IsExpression (before ++ after)) : surplus t = 0 ∧ level t = 0 := by
  have hsurplus := h.surplus_eq
  have hlevel := h.level_eq
  have hsurplus' := h'.surplus_eq
  have hlevel' := h'.level_eq
  simp only [weight_append, weight_cons] at hsurplus hsurplus'
  simp only [weight_append, weight_cons] at hlevel hlevel'
  constructor <;> omega

theorem not_adjacent (h : IsExpression (before ++ "(" :: ")" :: after)) : False := by
  have hchain := (List.isChain_append.1 h.chain).2.1
  rw [List.isChain_cons_cons] at hchain
  rcases hchain.1 with hne | hne
  · exact hne rfl
  · exact hne rfl

end IsExpression

/-! ## What edits break -/

namespace Edit

variable {kind : MutationKind} {tokens edited : List String}

/-- The tokens of an edited expression are words. -/
theorem isWord (h : Edit Token.defaultIdentifier kind tokens edited)
    (hmem : ∀ t ∈ tokens, t ∈ arithmeticTokens) : ∀ t ∈ edited, IsWord t.toList :=
  h.forall_mem (fun t ht => isWord_of_mem_arithmeticTokens (hmem t ht))
    (fun _ => isWord_of_isParen) (by decide) (by decide)
    fun t ht _ hpos hlt => (split_of_mem_arithmeticTokens (hmem t ht) hpos hlt).2

/-- **An edit that changes an expression leaves none.** -/
theorem not_isExpression (h : Edit Token.defaultIdentifier kind tokens edited)
    (hne : edited ≠ tokens) (htokens : IsExpression tokens) : ¬ IsExpression edited := by
  have hoperator : ∀ t, Token.isOperator t = true → surplus t ≠ 0 := by
    intro t ht
    rw [surplus_of_mem_operators (of_decide_eq_true ht)]
    decide
  intro hedited
  -- One token more or less is weighed by `eq_zero_of_insert`, in whichever of the two lists it is.
  cases h with
  | dropParen ht => exact level_ne_zero_of_isParen ht (htokens.eq_zero_of_insert hedited).2
  | addParen _ ht => exact level_ne_zero_of_isParen ht (hedited.eq_zero_of_insert htokens).2
  | doubleOperator ht => exact hoperator _ ht (hedited.eq_zero_of_insert htokens).1
  | addOperators _ _ =>
    have hsurplus := htokens.surplus_eq
    have hsurplus' := hedited.surplus_eq
    have hplus : surplus "+" = -1 := by decide
    simp only [weight_append, weight_cons] at hsurplus hsurplus'
    omega
  | lead ht =>
    rw [← List.nil_append (_ :: tokens)] at hedited
    exact hoperator _ (decide_eq_true ht) (hedited.eq_zero_of_insert htokens).1
  | trail ht =>
    rw [← List.append_nil tokens] at htokens
    exact hoperator _ (decide_eq_true ht) (hedited.eq_zero_of_insert htokens).1
  | addParens => exact hedited.not_adjacent
  | dropOperator ht => exact hoperator _ ht (htokens.eq_zero_of_insert hedited).1
  | noOperator _ => exact hne rfl
  | dropOperand ht =>
    have hone := surplus_of_isIdentifier (htokens.mem _ (by simp)) ht
    rw [(htokens.eq_zero_of_insert hedited).1] at hone
    exact absurd hone (by decide)
  | noOperand _ => exact hne rfl
  | addCharacter ht => exact not_mem_arithmeticTokens ht (hedited.mem _ (by simp))
  | cut hpos hlt =>
    have hfront := (split_of_mem_arithmeticTokens (htokens.mem _ (by simp)) hpos hlt).1
    exact hfront (hedited.mem _ (by simp))
  | short _ => exact hne rfl

/-- Only three kinds of edits may change nothing, and two of them only where there is nothing to
remove. -/
theorem unchanged {identifier : String} (h : Edit identifier kind tokens edited)
    (heq : edited = tokens) :
    (kind = .missingOperator ∧ ∀ t ∈ tokens, Token.isOperator t = false) ∨
      (kind = .missingOperand ∧ ∀ t ∈ tokens, Token.isIdentifier identifier t = false) ∨
      kind = .splitToken := by
  -- All other edits change the number of tokens.
  have hlength := congrArg List.length heq
  cases h with
  | noOperator hnone => exact .inl ⟨rfl, hnone⟩
  | noOperand hnone => exact .inr (.inl ⟨rfl, hnone⟩)
  | cut _ _ => exact .inr (.inr rfl)
  | short _ => exact .inr (.inr rfl)
  | dropParen | addParen | doubleOperator | addOperators | lead | trail | addParens | dropOperator
  | dropOperand | addCharacter =>
    simp only [List.length_append, List.length_cons, List.length_nil] at hlength
    omega

end Edit

/-! ## Mutations of derived texts -/

namespace Mutator

variable {σ τ : Type} [Source σ] [Source τ]

/-- A mutation of a text with tokens does what the edit of its kind does on them. -/
theorem mutate_returns {m : Mutator τ} {identifier text : String} {kind : MutationKind}
    {Q : List String → τ → Prop} (hidentifier : m.identifier = .text identifier)
    (hne : Token.tokenize text ≠ [])
    (h : (kind.edit identifier (Token.tokenize text)).Returns m.source Q) :
    (mutate text kind).Returns m fun r m' =>
      ∃ edited, Q edited m'.source ∧ r = some ⟨unwords edited, kind, kind.description, text⟩ := by
  unfold mutate
  dsimp only
  rw [if_neg (by simpa using hne)]
  have hget : (get : Action (Mutator τ) Failure (Mutator τ)).Returns m fun a t => a = m ∧ t = m :=
    ⟨m, m, rfl, rfl, rfl⟩
  refine hget.bind ?_
  rintro _ _ ⟨rfl, rfl⟩
  rw [hidentifier, spelling_text]
  refine Returns.bind (P := fun a t => a = identifier ∧ t = _) (.pure ⟨rfl, rfl⟩) ?_
  rintro _ _ ⟨rfl, rfl⟩
  refine (Returns.within (Q := fun a t => Q a t.source) h fun _ _ hQ => hQ).bind fun a t hQ => ?_
  exact .pure ⟨a, hQ, rfl⟩

/-- **The mutations of a derived expression are invalid.** Whatever an engine derives from a built-in
grammar of arithmetic, and however the mutator draws, every kind of mutation gives a text that has
not the tokens of any text of the grammar, or the text itself. It is the text itself only if there is
no operator or no identifier to remove, or if the token drawn to be cut is a single character. -/
theorem mutation_is_invalid [LawfulSource τ] {b : Builtin} {e e' : Engine σ} {d : Derivation}
    {m : Mutator τ} (hb : b = .arithmetic ∨ b = .fullArithmetic) (hg : b.grammar = .ok e.grammar)
    (hd : Engine.derive.runOn e = (.ok d, e'))
    (hidentifier : m.identifier = .text Token.defaultIdentifier) (kind : MutationKind) :
    ∃ r m', (mutate d.text kind).runOn m = (.ok (some r), m') ∧
      ((∀ w, e.grammar.Generates w → Token.tokenize w ≠ Token.tokenize r.text) ∨
        r.text = d.text) ∧
      (r.text = d.text →
        (kind = .missingOperator ∧
          ∀ t ∈ Token.tokenize d.text, Token.isOperator t = false) ∨
        (kind = .missingOperand ∧
          ∀ t ∈ Token.tokenize d.text, Token.isIdentifier "id" t = false) ∨
        kind = .splitToken ∧
          ∃ t, (Token.tokenize d.text)[
              (Source.next 0 (Token.tokenize d.text).length m.source).1]? = some t ∧
            size t = 1) := by
  obtain ⟨harithmetic, hstart⟩ := Builtin.isArithmetic hb hg
  obtain ⟨htokens, htext⟩ := (Engine.generates_of_derive hd).isExpression harithmetic hstart
  -- The result is the text of an edited list, whose tokens are found again.
  obtain ⟨_, m', hrun, r, ⟨edited, hedit, hr, hdrawn⟩, rfl⟩ :=
    mutate_returns hidentifier htokens.ne_nil
      (MutationKind.edit_returns Token.defaultIdentifier htokens.ne_nil kind m.source)
  refine ⟨_, m', hrun, ?_, ?_⟩
  · by_cases heq : edited = Token.tokenize d.text
    · right
      rw [hr, heq, ← htext]
    · left
      intro w hw hsame
      have hexpression := (hw.isExpression harithmetic hstart).1
      rw [hsame, hr, Token.tokenize_unwords_of_isWord (hedit.isWord htokens.mem)] at hexpression
      exact hedit.not_isExpression heq htokens hexpression
  · intro hsame
    have heq : edited = Token.tokenize d.text := by
      rw [← hsame, hr, Token.tokenize_unwords_of_isWord (hedit.isWord htokens.mem)]
    rcases hedit.unchanged heq with hnone | hnone | hkind
    · exact .inl hnone
    · exact .inr (.inl hnone)
    · obtain ⟨t, ht, hsize⟩ := hdrawn hkind heq
      have hall : ∀ u ∈ arithmeticTokens, 0 < size u := by decide
      -- The drawn token is too short to be cut, and not empty.
      have hpos := hall t (htokens.mem t (List.mem_of_getElem? ht))
      exact .inr (.inr ⟨hkind, t, ht, by omega⟩)

/-- An engine of five steps that always draws the second candidate. -/
def secondEngine (g : Grammar) : Engine Script where
  grammar := g
  bound := { given := .int 5, whole := 5, whole_pos := by decide }
  source := { first := 1, others := [] }

/-- The second candidates of the built-in grammar derive a single identifier, and the cut of its token
is no expression. -/
theorem mutation_of_identifier_is_invalid :
    ∃ g d e' r m', Builtin.arithmetic.grammar = .ok g ∧
      Engine.derive.runOn (secondEngine g) = (.ok d, e') ∧ d.text = "id" ∧
      (mutate "id" .splitToken).runOn { source := ({ first := 1, others := [] } : Script) } =
        (.ok (some r), m') ∧
      r.text = "i d" ∧ ∀ w, g.Generates w → Token.tokenize w ≠ ["i", "d"] := by
  obtain ⟨g, hg, -, -⟩ := Builtin.parts?_eq_some_iff.1 Builtin.parts?_arithmetic
  obtain ⟨d, e', hd, htext⟩ :
      ∃ d e', Engine.derive.runOn (secondEngine g) = (.ok d, e') ∧ d.text = "id" := by
    -- The run is evaluated on the grammar that is read, which is `g`.
    have hderived : (Builtin.arithmetic.grammar.toOption.bind fun g =>
        (Engine.derive.runOn (secondEngine g)).1.toOption).map Derivation.text = some "id" := by
      decide +kernel
    rw [hg] at hderived
    rcases hrun : Engine.derive.runOn (secondEngine g) with ⟨f | d, e'⟩
    · simp [Except.toOption, hrun] at hderived
    · exact ⟨d, e', rfl, by simpa [Except.toOption, hrun] using hderived⟩
  obtain ⟨r, m', hrun, hinvalid, -⟩ := mutation_is_invalid (b := .arithmetic)
    (m := { source := ({ first := 1, others := [] } : Script) }) (.inl rfl) hg hd rfl .splitToken
  rw [htext] at hrun hinvalid
  have hr : r.text = "i d" := by
    have hcomputed : ((mutate "id" .splitToken).runOn
        { source := ({ first := 1, others := [] } : Script) }).1.toOption =
          some (some ⟨"i d", .splitToken, "Space inserted inside a token", "id"⟩) := by rfl
    rw [hrun] at hcomputed
    simp only [Except.toOption, Option.some.injEq] at hcomputed
    rw [hcomputed]
  refine ⟨g, d, e', r, m', hg, hd, htext, hrun, hr, ?_⟩
  rw [hr] at hinvalid
  exact hinvalid.resolve_right (by decide)

end Mutator

end GrammarSuite
