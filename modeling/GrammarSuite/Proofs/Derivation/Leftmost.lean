import GrammarSuite.Derivation.Basic
import GrammarSuite.Proofs.Grammar.Rewriting

/-!
# Leftmost derivations within a bound

A trace is a derivation of a grammar within a bound if it starts with the start symbol, expands the
first nonterminal in each step, ends with a terminal form and takes no more steps than the bound.
Near the bound a step is under pressure: it must not use a left-recursive production where the
nonterminal has another one.

The same is said twice. `Grammar.IsDerivation` looks at the positions of a trace;
`Grammar.Leads` follows the steps from a form, as an engine takes them.

## Main definitions

* `Grammar.Permits`: the pressure near the bound
* `Grammar.Advances`: one step of a derivation
* `Grammar.IsDerivation`: a trace that is a derivation within a bound
* `Grammar.Leads`: steps that lead from a form to a terminal one
* `Derivation.finalForm`, `Grammar.Completes`: the last form of a derivation, and what it must be

## Main results

* `Grammar.isDerivation_iff`, `Grammar.Leads.isDerivation`: the two ways of saying it agree
* `Grammar.Leads.derives`: what steps lead to is derived by rewriting
* `Grammar.Leads.declared`: every symbol on the way is declared
-/

namespace GrammarSuite

/-- The last form of the trace of a derivation. -/
def Derivation.finalForm (d : Derivation) : Form :=
  match d.steps.getLast? with
  | some s => s.form
  | none => []

namespace Grammar

variable {g : Grammar} {bound taken : Nat} {form : Form}

/-- With fewer than a third of the steps remaining, a production must not be left-recursive, unless
its head has no other production. -/
def Permits (g : Grammar) (bound remaining : Nat) (p : Production) : Prop :=
  remaining < bound / 3 →
    (∃ q ∈ g.productions, q.head = p.head ∧ q.isLeftRecursive = false) → p.isLeftRecursive = false

/-- A step expands the first nonterminal of a form by a production that is permitted when so many
steps have been taken. -/
def Advances (g : Grammar) (bound taken : Nat) (form : Form) (s : Step) : Prop :=
  ∃ p ∈ g.productions, s.production = some p ∧ p.Expands form s.form ∧
    g.Permits bound (bound - taken) p

/-- A trace that is a leftmost derivation of a grammar within a bound. -/
structure IsDerivation (g : Grammar) (bound : Nat) (steps : List Step) : Prop where
  /-- The first form is the start symbol, and no production gave it. -/
  first : steps[0]? = some ⟨[g.start], none⟩
  /-- Each step advances from the form before it. -/
  advances : ∀ i previous next, steps[i]? = some previous → steps[i + 1]? = some next →
    g.Advances bound i previous.form next
  /-- The last form is terminal. -/
  last : ∀ s, steps.getLast? = some s → s.form.hasNonterminal = false
  two_le_length : 2 ≤ steps.length
  length_le : steps.length ≤ bound + 1

/-- Steps that lead from a form, reached by so many steps, to a terminal form. -/
inductive Leads (g : Grammar) (bound : Nat) : Nat → Form → List Step → Prop
  | done {taken : Nat} {form : Form} (h : form.hasNonterminal = false) :
      Leads g bound taken form []
  | step {taken : Nat} {form : Form} {s : Step} {rest : List Step}
      (h : g.Advances bound taken form s) (hrest : Leads g bound (taken + 1) s.form rest) :
      Leads g bound taken form (s :: rest)

/-- A derivation ends with a terminal form that the start symbol is rewritten to, and has its text. -/
structure Completes (g : Grammar) (d : Derivation) : Prop where
  derives : g.Derives [g.start] d.finalForm
  terminal : d.finalForm.hasNonterminal = false
  text : d.text = d.finalForm.terminalText

theorem Completes.generates {d : Derivation} (h : g.Completes d) : g.Generates d.text :=
  ⟨d.finalForm, h.derives, h.terminal, h.text⟩

/-! ## The two views of a trace -/

/-- Steps lead on exactly if each one advances from the one before it and the last one ends. -/
theorem leads_iff {steps : List Step} {origin : Option Production} :
    g.Leads bound taken form steps ↔
      (∀ i previous next, (⟨form, origin⟩ :: steps)[i]? = some previous →
        (⟨form, origin⟩ :: steps)[i + 1]? = some next →
        g.Advances bound (taken + i) previous.form next) ∧
      ∀ s, (⟨form, origin⟩ :: steps).getLast? = some s → s.form.hasNonterminal = false := by
  induction steps generalizing taken form origin with
  | nil =>
    constructor
    · intro h
      cases h with
      | done hform =>
        refine ⟨fun i previous next _ hnext => ?_, fun s hs => ?_⟩
        · simp at hnext
        · simp only [List.getLast?_singleton, Option.some.injEq] at hs
          exact hs ▸ hform
    · rintro ⟨-, hlast⟩
      exact .done (hlast ⟨form, origin⟩ rfl)
  | cons s rest ih =>
    -- The trace behind the first form is again one form followed by steps, with one step more taken.
    have hs : s = ⟨s.form, s.production⟩ := rfl
    have ih := @ih (taken + 1) s.form s.production
    constructor
    · intro h
      cases h with
      | step hadvances hrest =>
        obtain ⟨hall, hlast⟩ := ih.1 hrest
        refine ⟨fun i previous next hprevious hnext => ?_, fun t ht => ?_⟩
        · cases i with
          | zero =>
            simp only [List.getElem?_cons_zero, Option.some.injEq] at hprevious
            simp only [Nat.zero_add, List.getElem?_cons_succ, List.getElem?_cons_zero,
              Option.some.injEq] at hnext
            subst hprevious hnext
            exact hadvances
          | succ i =>
            have := hall i previous next hprevious hnext
            rwa [Nat.add_right_comm] at this
        · rw [List.getLast?_cons_cons] at ht
          exact hlast t ht
    · rintro ⟨hall, hlast⟩
      refine .step (hall 0 ⟨form, origin⟩ s rfl rfl) (ih.2 ⟨?_, ?_⟩)
      · intro i previous next hprevious hnext
        have := hall (i + 1) previous next hprevious hnext
        rwa [← Nat.add_assoc, Nat.add_right_comm] at this
      · intro t ht
        exact hlast t (by rw [List.getLast?_cons_cons]; exact ht)

/-- A derivation is the start symbol and steps that lead on from it, at least one and not more than
the bound. -/
theorem isDerivation_iff {steps : List Step} :
    g.IsDerivation bound steps ↔
      ∃ rest, steps = ⟨[g.start], none⟩ :: rest ∧ g.Leads bound 0 [g.start] rest ∧
        rest ≠ [] ∧ rest.length ≤ bound := by
  constructor
  · intro h
    cases steps with
    | nil => exact absurd h.two_le_length (by simp)
    | cons s rest =>
      have hs : s = ⟨[g.start], none⟩ := by simpa using h.first
      subst hs
      have hlower := h.two_le_length
      have hupper := h.length_le
      rw [List.length_cons] at hlower hupper
      refine ⟨rest, rfl, leads_iff.2 ⟨?_, h.last⟩, ?_, by omega⟩
      · intro i previous next hprevious hnext
        rw [Nat.zero_add]
        exact h.advances i previous next hprevious hnext
      · rintro rfl
        simp at hlower
  · rintro ⟨rest, rfl, hleads, hne, hlength⟩
    obtain ⟨hall, hlast⟩ := leads_iff.1 hleads
    have hpos := List.length_pos_iff.2 hne
    refine ⟨rfl, ?_, hlast, ?_, ?_⟩
    · intro i previous next hprevious hnext
      have := hall i previous next hprevious hnext
      rwa [Nat.zero_add] at this
    · rw [List.length_cons]
      omega
    · rw [List.length_cons]
      omega

/-- Steps that lead on from a start symbol that can be expanded are a derivation. -/
theorem Leads.isDerivation {rest : List Step} (hstart : g.start.isNonterminal = true)
    (h : g.Leads bound 0 [g.start] rest) (hlength : rest.length ≤ bound) :
    g.IsDerivation bound (⟨[g.start], none⟩ :: rest) := by
  refine isDerivation_iff.2 ⟨rest, rfl, h, ?_, hlength⟩
  -- A start symbol that is a nonterminal is not yet a terminal form.
  rintro rfl
  obtain ⟨name, hname⟩ := Symbol.exists_eq_nonterminal hstart
  cases h with
  | done hform => simp [hname] at hform

/-! ## What steps lead to -/

theorem Advances.produces {s : Step} (h : g.Advances bound taken form s) :
    g.Produces form s.form := by
  obtain ⟨p, hp, -, hexpands, -⟩ := h
  exact ⟨p, hp, hexpands.rewrites⟩

/-- The last form that steps lead to is terminal, and rewriting derives it. -/
theorem Leads.derives {steps : List Step} (h : g.Leads bound taken form steps)
    (origin : Option Production) :
    ∃ last, (⟨form, origin⟩ :: steps).getLast? = some last ∧ last.form.hasNonterminal = false ∧
      g.Derives form last.form := by
  induction h generalizing origin with
  | done hform => exact ⟨_, rfl, hform, .refl⟩
  | @step taken form s rest hadvances hrest ih =>
    obtain ⟨last, hlast, hterminal, hderives⟩ := ih s.production
    refine ⟨last, ?_, hterminal, .head hadvances.produces hderives⟩
    rw [List.getLast?_cons_cons]
    exact hlast

/-- A step from a form of declared symbols leads to one. -/
theorem Produces.declared {next : Form} (h : g.Produces form next)
    (hform : ∀ x ∈ form, x.Declared g.nonterminals g.terminals) :
    ∀ x ∈ next, x.Declared g.nonterminals g.terminals := by
  obtain ⟨p, hp, hrewrites⟩ := h
  intro x hx
  rcases hrewrites.mem_or_mem_body hx with hx | hx
  · exact hform x hx
  · exact (g.declared p hp).2 x hx

/-- Every symbol on the way from a form of declared symbols is declared. -/
theorem Leads.declared {steps : List Step} (h : g.Leads bound taken form steps)
    (hform : ∀ x ∈ form, x.Declared g.nonterminals g.terminals) :
    ∀ s ∈ steps, ∀ x ∈ s.form, x.Declared g.nonterminals g.terminals := by
  induction h with
  | done => simp
  | @step taken form s rest hadvances hrest ih =>
    have hnext := hadvances.produces.declared hform
    intro t ht
    rcases List.mem_cons.1 ht with rfl | ht
    · exact hnext
    · exact ih hnext t ht

end Grammar

end GrammarSuite
