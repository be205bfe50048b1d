import GrammarSuite.Proofs.Grammar.Rewriting
import GrammarSuite.Proofs.Grammar.Written

/-!
# The tokens of what a grammar generates

The names of the symbols of a grammar that was read are words, so that the tokens of what it generates
are the terminals again. Only the empty form has a token that is no terminal, which is the sign that
shows it.

## Main results

* `Form.tokenize_terminalText`: the tokens of a form of words
* `Grammar.isWord_of_derives`: the terminals of a grammar that was read are words
* `Grammar.length_tokenize_terminalText`: how many tokens a terminal form has
* `Grammar.tokenize_ne_nil`: what a grammar that was read generates has a token
-/

namespace GrammarSuite

open Json (Value)

namespace Form

/-- A terminal stands in a form if it is one of its terminals. -/
theorem mem_of_mem_terminals {form : Form} {t : String} (h : t ∈ form.terminals) :
    .terminal t ∈ form := by
  induction form with
  | nil => cases h
  | cons s rest ih =>
    cases s with
    | nonterminal n => exact List.mem_cons_of_mem _ (ih h)
    | terminal n =>
      rcases List.mem_cons.1 h with rfl | h
      · exact List.mem_cons_self
      · exact List.mem_cons_of_mem _ (ih h)

/-- The tokens of a form whose terminals are words are these terminals; the empty form has its sign as
a token. -/
theorem tokenize_terminalText {form : Form} (h : ∀ t ∈ form.terminals, Text.IsWord t.toList) :
    Token.tokenize form.terminalText = if form = [] then [epsilon] else form.terminals := by
  rw [terminalText]
  by_cases hform : form = []
  · subst hform
    decide +kernel
  · rw [if_neg (by simpa using hform), if_neg hform, Token.tokenize_unwords_of_isWord h]

end Form

namespace Grammar

variable {source text : String} {name : Value} {g : Grammar} {form : Form}

/-- The terminals of a form that a grammar derives are words, if the grammar was read. -/
theorem isWord_of_derives (h : ofText source name = .ok g) (hderives : g.Derives [g.start] form) :
    ∀ t ∈ form.terminals, Text.IsWord t.toList := by
  have hwords : ∀ s ∈ form, s.isNonterminal = true ∨ Text.IsWord s.name.toList := by
    refine hderives.forall_mem (fun p hp s hs => ?_) fun s hs => ?_
    · exact .inr ((isReadable_of_ofText h p hp).plain s hs).isWord
    · rw [List.mem_singleton.1 hs]
      obtain ⟨rules, -, hgrammar⟩ := ofText_eq_ok_iff.1 h
      exact .inl (Reader.grammar_eq_ok hgrammar).2.2
  intro t ht
  exact (hwords _ (Form.mem_of_mem_terminals ht)).resolve_left (by simp [Symbol.isNonterminal])

/-- **A terminal form has as many tokens as terminals**, but the empty form has one. -/
theorem length_tokenize_terminalText (h : ofText source name = .ok g)
    (hderives : g.Derives [g.start] form) (hterminal : form.hasNonterminal = false) :
    (Token.tokenize form.terminalText).length = max 1 form.terminals.length := by
  rw [Form.tokenize_terminalText (isWord_of_derives h hderives)]
  by_cases hform : form = []
  · subst hform
    rfl
  · have hpos : 0 < form.terminals.length := by
      rw [Form.terminals_eq_map_name hterminal, List.length_map]
      exact List.length_pos_iff.2 hform
    rw [if_neg hform, Nat.max_eq_right hpos]

/-- **What a grammar that was read generates has a token.** -/
theorem tokenize_ne_nil (h : ofText source name = .ok g) (hgen : g.Generates text) :
    Token.tokenize text ≠ [] := by
  obtain ⟨form, hderives, hterminal, rfl⟩ := hgen
  rw [← List.length_pos_iff, length_tokenize_terminalText h hderives hterminal]
  exact Nat.lt_of_lt_of_le Nat.zero_lt_one (Nat.le_max_left _ _)

end Grammar

end GrammarSuite
