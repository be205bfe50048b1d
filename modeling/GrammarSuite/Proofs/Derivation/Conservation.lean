import GrammarSuite.Proofs.Derivation.Engine
import GrammarSuite.Proofs.Grammar.Tokens
import GrammarSuite.Proofs.Metrics.Entries

/-!
# What derivations conserve

An expansion takes one nonterminal away from a form and puts a body there, wherever in the form that
is. Over a whole derivation every symbol is therefore accounted for: what a form has of any kind of
symbols, together with the heads of that kind that were expanded, is what the first form had and
what the bodies of the applied productions brought.

Terminals are never expanded, so that those of the final form are the ones that the bodies brought.
Nonterminals are all expanded in the end, so that there was one expansion for the start symbol and
one for each nonterminal of a body. The tokens of a text are counted in the same way, and with them
the operators and the parentheses that the case of a derivation tells.

## Main definitions

* `Derivation.applied`: the productions of a derivation

## Main results

* `Production.Rewrites.countP_add`: the account of one production
* `Grammar.Leads.countP_add`: the account of the steps from a form
* `Form.count_tokenize_terminalText`: the tokens of a terminal form
* `Engine.symbols_conserved`: the terminals, the expansions and the case of a derivation
-/

namespace GrammarSuite

/-- The productions that were applied in a derivation, in order. -/
def Derivation.applied (d : Derivation) : List Production := d.steps.filterMap Step.production

/-! ## The account of a derivation -/

/-- **One production** puts its body in the place of its head. -/
theorem Production.Rewrites.countP_add {p : Production} {form next : Form}
    (h : p.Rewrites form next) (q : Symbol → Bool) :
    next.countP q + [p.headSymbol].countP q = form.countP q + p.body.countP q := by
  obtain ⟨before, after, rfl, rfl⟩ := h
  simp only [List.countP_append, List.countP_cons, List.countP_nil]
  omega

namespace Grammar

variable {g : Grammar} {bound taken : Nat} {form : Form} {steps : List Step} {last : Step}

/-- Each step has a production of the grammar. -/
theorem Leads.length_applied (h : g.Leads bound taken form steps) :
    (steps.filterMap Step.production).length = steps.length := by
  induction h with
  | done => rfl
  | step hadvances hrest ih =>
    obtain ⟨p, -, hp, -, -⟩ := hadvances
    rw [List.filterMap_cons_some hp, List.length_cons, List.length_cons, ih]

theorem Leads.mem_of_mem_applied (h : g.Leads bound taken form steps) :
    ∀ p ∈ steps.filterMap Step.production, p ∈ g.productions := by
  induction h with
  | done => simp
  | step hadvances hrest ih =>
    obtain ⟨p, hmem, hp, -, -⟩ := hadvances
    rw [List.filterMap_cons_some hp]
    exact List.forall_mem_cons.2 ⟨hmem, ih⟩

/-- **Steps from a form** put the bodies of their productions in the place of the heads. -/
theorem Leads.countP_add (h : g.Leads bound taken form steps) {origin : Option Production}
    (hlast : (⟨form, origin⟩ :: steps).getLast? = some last) (q : Symbol → Bool) :
    last.form.countP q + ((steps.filterMap Step.production).map Production.headSymbol).countP q =
      form.countP q + ((steps.filterMap Step.production).map (·.body.countP q)).sum := by
  -- Induction on the steps, each of which is accounted for by itself.
  induction h generalizing origin with
  | done =>
    obtain rfl := Option.some.inj hlast
    simp
  | @step taken form s rest hadvances hrest ih =>
    obtain ⟨p, -, hp, hexpands, -⟩ := hadvances
    rw [List.getLast?_cons_cons] at hlast
    have hone := hexpands.rewrites.countP_add q
    have hothers := @ih s.production hlast
    rw [List.countP_cons, List.countP_nil] at hone
    rw [List.filterMap_cons_some hp, List.map_cons, List.map_cons, List.countP_cons,
      List.sum_cons]
    omega

/-- The terminals of the final form are those that the bodies brought. -/
theorem Leads.count_terminal (h : g.Leads bound taken form steps) {origin : Option Production}
    (hlast : (⟨form, origin⟩ :: steps).getLast? = some last) (t : String) :
    last.form.count (.terminal t) = form.count (.terminal t) +
      ((steps.filterMap Step.production).map (·.body.count (.terminal t))).sum := by
  -- No head is a terminal.
  have hheads : ((steps.filterMap Step.production).map Production.headSymbol).countP
      (· == .terminal t) = 0 := by
    rw [List.countP_map, List.countP_eq_zero]
    simp [Production.headSymbol]
  have hadd := h.countP_add hlast (· == .terminal t)
  rwa [hheads, Nat.add_zero] at hadd

/-- There is one expansion for each nonterminal that was there or that a body brought. -/
theorem Leads.length_eq (h : g.Leads bound taken form steps) :
    steps.length = form.countP Symbol.isNonterminal +
      ((steps.filterMap Step.production).map Production.nonterminalCount).sum := by
  obtain ⟨last, hlast, hterminal, -⟩ := h.derives none
  have hadd := h.countP_add hlast Symbol.isNonterminal
  -- In the end no nonterminal is left, and every head is one.
  have hnone : last.form.countP Symbol.isNonterminal = 0 := by
    rw [List.countP_eq_zero]
    simpa [Form.hasNonterminal] using hterminal
  have hheads : ((steps.filterMap Step.production).map Production.headSymbol).countP
      Symbol.isNonterminal = steps.length := by
    rw [List.countP_map, ← h.length_applied]
    exact List.countP_eq_length.2 fun p _ => rfl
  rw [hnone, hheads, Nat.zero_add] at hadd
  exact hadd

end Grammar

/-! ## The tokens of a derivation -/

namespace Form

theorem count_terminals (form : Form) (t : String) :
    form.terminals.count t = form.count (.terminal t) := by
  induction form with
  | nil => rfl
  | cons s rest ih =>
    cases s with
    | nonterminal n => simp [terminals, ih]
    | terminal n => simp [terminals, List.count_cons, ih]

/-- **The tokens of a form of words are its terminals.** The sign of the empty form is a token too,
and counts for nothing else. -/
theorem count_tokenize_terminalText {form : Form}
    (h : ∀ t ∈ form.terminals, Text.IsWord t.toList) {t : String} (ht : t ≠ epsilon) :
    (Token.tokenize form.terminalText).count t = form.count (.terminal t) := by
  rw [tokenize_terminalText h]
  split
  · rename_i hform
    subst hform
    exact List.count_eq_zero.2 (by simpa using ht)
  · exact count_terminals form t

end Form

namespace Engine

variable {σ : Type} [Random.Source σ] {e e' : Engine σ} {d : Derivation}

/-- The account of a derivation: the terminals that it ends with, and its expansions. -/
theorem conserves_of_derive (hstart : e.grammar.start.isNonterminal = true)
    (h : derive.runOn e = (.ok d, e')) :
    (∀ p ∈ d.applied, p ∈ e.grammar.productions) ∧
    (∀ t, d.finalForm.count (.terminal t) =
      (d.applied.map (·.body.count (.terminal t))).sum) ∧
    d.steps.length = 2 + (d.applied.map Production.nonterminalCount).sum := by
  obtain ⟨steps, rfl, hleads, -⟩ := leads_of_derive h
  obtain ⟨last, hlast, -, -⟩ := hleads.derives none
  obtain ⟨name, hname⟩ := Symbol.exists_eq_nonterminal hstart
  have happlied : (finish (⟨[e.grammar.start], none⟩ :: steps)).applied =
      steps.filterMap Step.production := rfl
  have hfinal : (finish (⟨[e.grammar.start], none⟩ :: steps)).finalForm = last.form := by
    simp [Derivation.finalForm, finish, hlast]
  rw [happlied, hfinal]
  refine ⟨hleads.mem_of_mem_applied, fun t => ?_, ?_⟩
  · have hnone : [Symbol.nonterminal name].count (.terminal t) = 0 := by simp
    rw [hleads.count_terminal hlast t, hname, hnone, Nat.zero_add]
  · have hlength := hleads.length_eq
    rw [hname, List.countP_singleton, Symbol.isNonterminal, if_pos rfl] at hlength
    simp only [finish, List.length_cons]
    omega

/-- The tokens of what a grammar that was read derives are those that the bodies brought. -/
theorem count_tokenize_of_derive {source : String} {name : Json.Value}
    (hread : Grammar.ofText source name = .ok e.grammar) (h : derive.runOn e = (.ok d, e'))
    {t : String} (ht : t ≠ epsilon) :
    (Token.tokenize d.text).count t = (d.applied.map (·.body.count (.terminal t))).sum := by
  obtain ⟨rules, -, hgrammar⟩ := Grammar.ofText_eq_ok_iff.1 hread
  have hstart := (Reader.grammar_eq_ok hgrammar).2.2
  have hcompletes := completes_of_derive h
  have hwords := Grammar.isWord_of_derives hread hcompletes.derives
  rw [hcompletes.text, Form.count_tokenize_terminalText hwords ht]
  exact (conserves_of_derive hstart h).2.1 t

section

variable {source : String} {name : Json.Value} {description : Json.Value} {c : TestCase}

/-- A case of a derivation has the operators of the applied productions. -/
theorem operators_of_makes (hread : Grammar.ofText source name = .ok e.grammar)
    (h : derive.runOn e = (.ok d, e')) (hmakes : (Origin.derivation d description).Makes c) :
    c.metadata.get? "operators" = some (.object (Token.operators.map fun op =>
      (op, .int ((d.applied.map (·.body.count (.terminal op))).sum : Nat)))) := by
  let l : Labelled := ⟨_, c, hmakes⟩
  have htokens : l.tokens = Token.tokenize d.text := l.tokens_eq
  rw [l.get?_operators, htokens]
  refine congrArg _ (congrArg _ (List.map_congr_left fun op hop => ?_))
  rw [count_tokenize_of_derive hread h]
  -- The sign of the empty form is no operator.
  rintro rfl
  exact absurd hop (by decide)

/-- A case of a derivation tells that its parentheses are balanced, if each body has as many opening
ones as closing ones. -/
theorem parensBalanced_of_makes (hread : Grammar.ofText source name = .ok e.grammar)
    (h : derive.runOn e = (.ok d, e')) (hmakes : (Origin.derivation d description).Makes c)
    (hbodies : ∀ p ∈ d.applied,
      p.body.count (.terminal Token.openParen) = p.body.count (.terminal Token.closeParen)) :
    c.metadata.get? "parens_balanced" = some (.bool true) := by
  let l : Labelled := ⟨_, c, hmakes⟩
  have htokens : l.tokens = Token.tokenize d.text := l.tokens_eq
  have hcount := fun {t} => count_tokenize_of_derive (t := t) hread h
  rw [l.get?_parensBalanced, htokens, hcount (by decide), hcount (by decide),
    List.map_congr_left hbodies, decide_eq_true rfl]

end

/-- **Symbols are conserved along a derivation.** The final form has each terminal as often as the
bodies of the applied productions together, and the start symbol and every nonterminal of these
bodies were expanded once. For a grammar that was read, a case of the derivation has the operators
of the applied productions. If moreover each body has as many opening parentheses as closing ones,
the case tells that they are balanced. -/
theorem symbols_conserved (hstart : e.grammar.start.isNonterminal = true)
    (h : derive.runOn e = (.ok d, e')) :
    (∀ t, d.finalForm.count (.terminal t) =
      (d.applied.map (·.body.count (.terminal t))).sum) ∧
    d.expansions = 1 + (d.applied.map Production.nonterminalCount).sum ∧
    ∀ source name, Grammar.ofText source name = .ok e.grammar →
      ∀ description, (∀ spelling created, (Origin.derivation d description).Makes
          ((Subject.ofDerivation d description).case spelling created 1)) ∧
        ∀ c, (Origin.derivation d description).Makes c →
          c.category = .valid ∧
          c.metadata.get? "operators" = some (.object (Token.operators.map fun op =>
            (op, .int ((d.applied.map (·.body.count (.terminal op))).sum : Nat)))) ∧
          ((∀ p ∈ e.grammar.productions, p.body.count (.terminal Token.openParen) =
              p.body.count (.terminal Token.closeParen)) →
            c.metadata.get? "parens_balanced" = some (.bool true)) := by
  obtain ⟨hmem, hcount, hlength⟩ := conserves_of_derive hstart h
  refine ⟨hcount, ?_, fun source name hread description =>
    ⟨Origin.makes_case _, fun c hmakes => ⟨?_, ?_, fun hbodies => ?_⟩⟩⟩
  · rw [Derivation.expansions, hlength]
    omega
  · exact (⟨_, c, hmakes⟩ : Labelled).category_case
  · exact operators_of_makes hread h hmakes
  · exact parensBalanced_of_makes hread h hmakes fun p hp => hbodies p (hmem p hp)

/-- The grammar of sums in parentheses. -/
def nestedSums : Grammar where
  name := .text "sums"
  nonterminals := [.nonterminal "E"]
  terminals := [.terminal "(", .terminal "+", .terminal ")", .terminal "x"]
  productions := [
    ⟨"E", [.terminal "(", .nonterminal "E", .terminal "+", .nonterminal "E", .terminal ")"]⟩,
    ⟨"E", [.terminal "x"]⟩]
  start := .nonterminal "E"
  start_mem := by simp
  declared := by simp [Production.Declared, Production.headSymbol, Symbol.Declared]

/-- An engine that takes the sum first, and an operand from then on. -/
def sumEngine : Engine Random.Script where
  grammar := nestedSums
  bound := { given := .int 9, whole := 9, whole_pos := by decide }
  source := { first := 0, others := [1, 1] }

theorem ofText_nestedSums :
    Grammar.ofText "E -> ( E + E ) | x" (.text "sums") = .ok sumEngine.grammar := rfl

/-- The sum of two operands takes three expansions, and its cases tell one plus sign between
balanced parentheses. -/
theorem symbols_conserved_sum :
    sumEngine.grammar.start.isNonterminal = true ∧
      Grammar.ofText "E -> ( E + E ) | x" (.text "sums") = .ok sumEngine.grammar ∧
      (∀ p ∈ nestedSums.productions, p.body.count (.terminal Token.openParen) =
        p.body.count (.terminal Token.closeParen)) ∧
      ∃ d e', derive.runOn sumEngine = (.ok d, e') ∧ d.text = "( x + x )" ∧ d.expansions = 3 ∧
        (∃ c, (Origin.derivation d).Makes c) ∧
        ∀ c, (Origin.derivation d).Makes c →
          c.metadata.get? "operators" =
            some (.object [("+", .int 1), ("*", .int 0), ("-", .int 0), ("/", .int 0)]) ∧
          c.metadata.get? "parens_balanced" = some (.bool true) := by
  have hbodies : ∀ p ∈ nestedSums.productions, p.body.count (.terminal Token.openParen) =
      p.body.count (.terminal Token.closeParen) := by decide
  obtain ⟨-, -, hcase⟩ := symbols_conserved (e := sumEngine) rfl rfl
  obtain ⟨hmakes, htells⟩ := hcase _ _ ofText_nestedSums Subject.validDescription
  have hmade := hmakes "id"
    { year := 2024, month := 1, day := 1, hour := 0, minute := 0, second := 0 }
  refine ⟨rfl, ofText_nestedSums, hbodies, _, _, rfl, rfl, rfl, ⟨_, hmade⟩, fun c hc => ?_⟩
  obtain ⟨-, hoperators, hbalanced⟩ := htells c hc
  exact ⟨hoperators, hbalanced hbodies⟩

end Engine

end GrammarSuite
