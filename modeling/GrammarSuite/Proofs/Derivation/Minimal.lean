import GrammarSuite.Extreme
import GrammarSuite.Proofs.Derivation.Completeness
import GrammarSuite.Proofs.Derivation.Evaluation

/-!
# The minimal derivation is one of the engine

The minimal derivation takes the simplest production of each nonterminal, an engine takes one that
it draws, and avoids left-recursive productions near its bound. Both expand the first nonterminal.
A simplest production whose head stands in its own body can only be expanded without end. So what
has a tree has no such production, nothing that the pressure near the bound excludes is needed, and
the engine takes the same steps for the right numbers, even if the bound is not a step wider.

## Main definitions

* `Grammar.TakesSimplest`: a step by the simplest production, which no pressure excludes

## Main results

* `Grammar.Unfolds.not_mem_body`: a nonterminal of a tree does not stand in its own body
* `Grammar.Unfolds.exists_leads`: the steps that lead along a tree
* `Grammar.minimalDerivation_is_derived`: an engine returns the minimal derivation
-/

namespace GrammarSuite.Grammar

open GrammarSuite.Random

open Json (Value)

variable {g : Grammar} {form : Form} {yield : List String} {n : Nat}

/-- A nonterminal that occurs in a form with a tree does not stand in the body of its simplest
production: what is expanded below it takes fewer expansions than itself. -/
theorem Unfolds.not_mem_body {name : String} {p : Production} (h : g.Unfolds form yield n)
    (hmem : .nonterminal name ∈ form) (hp : g.choice? name = some p) :
    .nonterminal name ∉ p.body := by
  intro hbody
  obtain ⟨before, after, rfl⟩ := List.append_of_mem hmem
  obtain ⟨_, _, _, _, -, htree, -, -⟩ := unfolds_append_iff.1 h
  cases htree with
  | @nonterminal _ q _ _ _ m _ hq htree _ =>
    rw [hp] at hq
    obtain rfl := Option.some.inj hq
    have hle := htree.le_of_mem hbody (.nonterminal hp htree .nil)
    omega

/-- A step by the simplest production of a nonterminal, which is always among the candidates of a
draw. -/
def TakesSimplest (g : Grammar) (s : Step) : Prop :=
  ∃ p, s.production = some p ∧ g.choice? p.head = some p ∧
    ∀ whole remaining, p ∈ Engine.candidates g whole remaining p.headSymbol

/-- **The steps that lead along a tree** are as many as its expansions, and take the simplest
productions, within any bound. -/
theorem Unfolds.exists_leads (h : g.Unfolds form yield n) (bound taken : Nat)
    (origin : Option Production) :
    ∃ steps, g.Leads bound taken form steps ∧ steps.length = n ∧
      (∀ s ∈ steps, g.TakesSimplest s) ∧
      ∃ last, (⟨form, origin⟩ :: steps).getLast? = some last ∧
        last.form = yield.map .terminal := by
  -- Induction on the number of expansions; each step takes the first nonterminal off the tree.
  induction n generalizing form taken origin with
  | zero =>
    rcases hsplit : form.splitFirst? with _ | ⟨before, head, after⟩
    · have hform := Form.splitFirst?_eq_none_iff.1 hsplit
      obtain ⟨rfl, -⟩ := h.unique (unfolds_of_terminal hform)
      exact ⟨[], .done hform, rfl, by simp, _, rfl, Form.eq_map_terminal hform⟩
    · obtain ⟨rfl, -⟩ := Form.splitFirst?_eq_some hsplit
      obtain ⟨p, m, -, -, hm⟩ := unfolds_expand_iff.1 h
      omega
  | succ n ih =>
    rcases hsplit : form.splitFirst? with _ | ⟨before, head, after⟩
    · obtain ⟨-, hn⟩ := h.unique (unfolds_of_terminal (Form.splitFirst?_eq_none_iff.1 hsplit))
      omega
    · obtain ⟨hform, hbefore⟩ := Form.splitFirst?_eq_some hsplit
      obtain ⟨p, m, hp, htree, hm⟩ := unfolds_expand_iff.1 (hform ▸ h)
      obtain rfl : n = m := by omega
      obtain ⟨hmem, rfl⟩ := mem_of_choice? hp
      have hdirect : p.isLeftRecursive = false := by
        have hbody := h.not_mem_body (by rw [hform]; simp) hp
        rw [Production.isLeftRecursive, beq_eq_false_iff_ne]
        exact fun hhead => hbody (List.mem_of_head? hhead)
      obtain ⟨steps, hleads, hlength, hsimplest, last, hlast, hyield⟩ :=
        ih htree (taken + 1) (some p)
      refine ⟨⟨before ++ p.body ++ after, some p⟩ :: steps, .step ?_ hleads, ?_, ?_, last, ?_,
        hyield⟩
      · exact ⟨p, hmem, rfl, ⟨before, after, hbefore, hform, rfl⟩, fun _ _ => hdirect⟩
      · rw [List.length_cons, hlength]
      · refine List.forall_mem_cons.2 ⟨⟨p, rfl, hp, fun whole remaining => ?_⟩, hsimplest⟩
        exact Engine.mem_candidates_iff.2 ⟨hmem, rfl, fun _ _ => hdirect⟩
      · rw [List.getLast?_cons_cons]
        exact hlast

/-- The search for the shallowest string finds the minimal derivation, if the usual limit allows
it. Its depth counts the first form too. -/
theorem find_minDepth {σ : Type} [Source σ] {limit : Int} {text : String}
    (h : g.minimalDerivation (.int limit) = .ok (text, n)) (hn : n ≤ 1000) {f : Finder σ}
    (hf : f.grammar = g) :
    ∃ r, (Finder.find .minDepth).runOn f = (.ok r, f) ∧ r.text = text ∧
      r.depth = .int (n + 1 : Nat) := by
  obtain ⟨yield, htree, -, htext⟩ := minimalDerivation_eq_ok_iff.1 h
  have husual : f.grammar.minimalDerivation minimalStepLimit = .ok (text, n) := by
    rw [hf]
    exact minimalDerivation_eq_ok_iff.2 ⟨yield, htree, by simpa using hn, htext⟩
  refine ⟨Extreme.ofText text .minDepth (.text "Minimal case (shortest derivation)")
    (.int (n + 1 : Nat)) none none none, ?_, rfl, rfl⟩
  simp [Finder.find, Finder.shallowest, Action.runOn_bind, husual]

/-- **The minimal derivation is one of the engine**, within any bound that allows its steps. For
some numbers an engine returns the same text, by a derivation that takes nothing but simplest
productions and is one form longer than the steps of the minimal derivation are many, which is the
depth that is found for the shallowest string. -/
theorem minimalDerivation_is_derived {limit : Int} {D : Nat} {text : String}
    (h : g.minimalDerivation (.int limit) = .ok (text, n)) (hD : 0 < D) (hn : n ≤ D) :
    (∃ (first : Nat) (others : List Nat) (e e' : Engine (Recorded Script)) (d : Derivation),
      Engine.ofBound g (.int D) ⟨{ first, others := others.map Int.ofNat }, [], 0⟩ = .ok e ∧
      Engine.derive.runOn e = (.ok d, e') ∧ d.text = text ∧ d.depth = n + 1 ∧
      e'.source.count = n ∧ ∀ s ∈ d.steps.tail, g.TakesSimplest s) ∧
    ∀ {σ : Type} [Source σ] (f : Finder σ), f.grammar = g → n ≤ 1000 →
      ∃ r, (Finder.find .minDepth).runOn f = (.ok r, f) ∧ r.text = text ∧
        r.depth = .int (n + 1 : Nat) := by
  refine ⟨?_, fun f hf hlimit => find_minDepth h hlimit hf⟩
  obtain ⟨yield, htree, -, rfl⟩ := minimalDerivation_eq_ok_iff.1 h
  obtain ⟨steps, hleads, rfl, hsimplest, last, hlast, hyield⟩ :=
    htree.exists_leads D 0 none
  obtain ⟨first, others, e, e', d, he, hderive, rfl, hcount, -⟩ :=
    Engine.exists_script_of_leads hD hleads hn
  refine ⟨first, others, e, e', _, he, hderive, ?_, rfl, hcount, hsimplest⟩
  simp only [Engine.finish, hlast, hyield, terminalText_map_terminal]

/-- One letter is the minimal derivation of repeated letters. An engine returns it with a bound of
one step, although the grammar has a left-recursive production. -/
theorem minimal_letter_is_derived :
    Engine.letters.minimalDerivation (.int 1) = .ok ("a", 1) ∧
      (∃ (first : Nat) (others : List Nat) (e e' : Engine (Recorded Script)) (d : Derivation),
        Engine.ofBound Engine.letters (.int (1 : Nat))
          ⟨{ first, others := others.map Int.ofNat }, [], 0⟩ = .ok e ∧
        Engine.derive.runOn e = (.ok d, e') ∧ d.text = "a" ∧ d.depth = 2 ∧
        e'.source.count = 1 ∧ ∀ s ∈ d.steps.tail, Engine.letters.TakesSimplest s) ∧
      ∀ {σ : Type} [Source σ] (f : Finder σ), f.grammar = Engine.letters → 1 ≤ 1000 →
        ∃ r, (Finder.find .minDepth).runOn f = (.ok r, f) ∧ r.text = "a" ∧
          r.depth = .int (2 : Nat) := by
  have h : Engine.letters.minimalDerivation (.int 1) = .ok ("a", 1) := rfl
  exact ⟨h, minimalDerivation_is_derived h Nat.one_pos le_rfl⟩

end GrammarSuite.Grammar
