import GrammarSuite.Derivation.Engine
import GrammarSuite.Proofs.Derivation.Leftmost
import GrammarSuite.Random.Script

/-!
# An engine takes leftmost derivations

What the actions of an engine do, each said once: the candidates of a draw are the permitted
productions of a nonterminal, a choice is the candidate at the drawn position, and expanding a form
takes one step that advances and then expands what it gave. A successful derivation is therefore a
leftmost derivation within the bound, from any source.

## Main results

* `Engine.mem_candidates_iff`: the candidates of a draw
* `Engine.choose_eq_ok_iff`, `Engine.expandAll_eq_ok_iff`: what one choice and one expansion do
* `Engine.derive_eq_ok_iff`: what one derivation does
* `Engine.completes_of_derive`, `Engine.generates_of_derive`: a derivation that an engine returns ends
  with a terminal form, and its text is generated
* `Engine.traced_of_derive`, `Engine.isDerivation_of_derive`: a trace that an engine returns is a
  derivation
-/

namespace GrammarSuite

/-- A whole number that is accepted as a bound is at least one, and allows as many expansions. -/
theorem DepthBound.eq_of_ofValue_int {D : Nat} {b : DepthBound}
    (h : DepthBound.ofValue (.int D) = .ok b) :
    0 < D ∧ b.whole = D ∧ b.excess = 0 ∧ b.given = .int D := by
  by_cases hD : 0 < D
  · rw [DepthBound.ofValue_int hD, Except.ok.injEq] at h
    subst h
    exact ⟨hD, rfl, rfl, rfl⟩
  · have hzero : D = 0 := by omega
    subst hzero
    simp [DepthBound.ofValue] at h

namespace Grammar

/-- The productions of a nonterminal are those with it as their head. -/
theorem mem_productionsFor_iff {g : Grammar} {head : String} {p : Production} :
    p ∈ g.productionsFor (.nonterminal head) ↔ p ∈ g.productions ∧ p.head = head := by
  simp [productionsFor, Production.headSymbol]

end Grammar

namespace Engine

/-- The candidates of a draw are the productions of the nonterminal that are permitted. -/
theorem mem_candidates_iff {g : Grammar} {whole remaining : Nat} {head : String} {p : Production} :
    p ∈ candidates g whole remaining (.nonterminal head) ↔
      p ∈ g.productions ∧ p.head = head ∧ g.Permits whole remaining p := by
  have hdirect : ∀ q : Production,
      q ∈ (g.productionsFor (.nonterminal head)).filter (fun p => !p.isLeftRecursive) ↔
        (q ∈ g.productions ∧ q.head = head) ∧ q.isLeftRecursive = false := by
    intro q
    rw [List.mem_filter, Grammar.mem_productionsFor_iff, Bool.not_eq_true']
  simp only [candidates]
  split
  · rename_i h
    rw [hdirect]
    constructor
    · rintro ⟨⟨hp, hhead⟩, hlr⟩
      exact ⟨hp, hhead, fun _ _ => hlr⟩
    · rintro ⟨hp, hhead, hpermits⟩
      obtain ⟨q, hq⟩ := List.exists_mem_of_ne_nil _ h.2
      obtain ⟨⟨hqp, hqhead⟩, hqlr⟩ := (hdirect q).1 hq
      exact ⟨⟨hp, hhead⟩, hpermits h.1 ⟨q, hqp, hqhead.trans hhead.symm, hqlr⟩⟩
  · rename_i h
    rw [Grammar.mem_productionsFor_iff]
    constructor
    · rintro ⟨hp, hhead⟩
      refine ⟨hp, hhead, fun hremaining hother => ?_⟩
      obtain ⟨q, hqp, hqhead, hqlr⟩ := hother
      have hq := (hdirect q).2 ⟨⟨hqp, hqhead.trans hhead⟩, hqlr⟩
      exact absurd ⟨hremaining, List.ne_nil_of_mem hq⟩ h
    · rintro ⟨hp, hhead, -⟩
      exact ⟨hp, hhead⟩

variable {σ : Type} [Random.Source σ]

/-- A choice is the production at a drawn position. -/
theorem choose_eq_ok_iff {symbol : Symbol} {productions : List Production} {p : Production}
    {s s' : σ} :
    (choose symbol productions).runOn s = (.ok p, s') ↔
      ∃ i, Random.Source.ready s = true ∧
        Random.Source.next 0 productions.length s = (i, s') ∧ productions[i]? = some p := by
  unfold choose
  split
  · rename_i h
    have hnil : productions = [] := List.isEmpty_iff.1 h
    subst hnil
    simp
  · rw [Action.runOn_within_eq_ok]
    simp only [id_eq, Random.pick_eq_ok_iff]
    constructor
    · rintro ⟨t, hi, rfl⟩
      exact hi
    · intro hi
      exact ⟨s', hi, rfl⟩

variable {g : Grammar} {b : DepthBound} {remaining taken : Nat} {form : Form}

/-- Expanding a form succeeds exactly if the form is terminal, which takes no step and no draw, or
if a candidate for its first nonterminal is chosen, and expanding the form that it gives succeeds. -/
theorem expandAll_eq_ok_iff {steps : List Step} {s s' : σ} :
    (expandAll g b remaining form).runOn s = (.ok steps, s') ↔
      (form.splitFirst? = none ∧ steps = [] ∧ s' = s) ∨
      ∃ before head after left p t rest, form.splitFirst? = some (before, head, after) ∧
        remaining = left + 1 ∧
        (choose (.nonterminal head)
          (candidates g b.whole (left + 1 - b.excess) (.nonterminal head))).runOn s = (.ok p, t) ∧
        (expandAll g b left (before ++ p.body ++ after)).runOn t = (.ok rest, s') ∧
        steps = ⟨before ++ p.body ++ after, some p⟩ :: rest := by
  rw [expandAll]
  rcases hsplit : form.splitFirst? with _ | ⟨before, head, after⟩
  · simp [eq_comm]
  · cases remaining with
    | zero => simp
    | succ left =>
      simp only [Action.runOn_bind_eq_ok, Action.runOn_pure, Prod.mk.injEq, Except.ok.injEq,
        reduceCtorEq, false_and, false_or, Option.some.injEq]
      constructor
      · rintro ⟨p, t, hp, rest, s'', hrest, rfl, rfl⟩
        exact ⟨before, head, after, left, p, t, rest, ⟨rfl, rfl, rfl⟩, rfl, hp, hrest, rfl⟩
      · rintro ⟨_, _, _, _, p, t, rest, ⟨rfl, rfl, rfl⟩, hleft, hp, hrest, rfl⟩
        obtain rfl := Nat.succ.inj hleft
        exact ⟨p, t, hp, rest, s', hrest, rfl, rfl⟩

/-- One derivation succeeds exactly if expanding the start symbol does; the engine keeps its trace
and goes on with the source. -/
theorem derive_eq_ok_iff {e e' : Engine σ} {d : Derivation} :
    derive.runOn e = (.ok d, e') ↔
      ∃ steps source, (expandAll e.grammar e.bound e.bound.limit [e.grammar.start]).runOn e.source =
          (.ok steps, source) ∧
        d = finish (⟨[e.grammar.start], none⟩ :: steps) ∧
        e' = { e with source, history := ⟨[e.grammar.start], none⟩ :: steps } := by
  simp only [derive, Action.runOn_ofFunction]
  rcases (expandAll e.grammar e.bound e.bound.limit [e.grammar.start]).runOn e.source with
    ⟨f | steps, source⟩
  · simp
  · simp only [Prod.mk.injEq, Except.ok.injEq]
    constructor
    · rintro ⟨rfl, rfl⟩
      exact ⟨steps, source, ⟨rfl, rfl⟩, rfl, rfl⟩
    · rintro ⟨_, _, ⟨rfl, rfl⟩, rfl, rfl⟩
      exact ⟨rfl, rfl⟩

/-! ## Soundness -/

/-- Expanding a form leads to a terminal form, in as many steps as remain at most. The steps taken
before and the remaining ones make up the limit. -/
theorem leads_of_expandAll {steps : List Step} {s s' : σ}
    (h : (expandAll g b remaining form).runOn s = (.ok steps, s'))
    (hlimit : taken + remaining = b.limit) :
    g.Leads b.whole taken form steps ∧ steps.length ≤ remaining := by
  -- Induction on the steps that remain, which is how expanding goes on.
  induction remaining generalizing taken form steps s with
  | zero =>
    rcases expandAll_eq_ok_iff.1 h with ⟨hnone, rfl, -⟩ | ⟨_, _, _, _, _, _, _, -, hleft, -⟩
    · exact ⟨.done (Form.splitFirst?_eq_none_iff.1 hnone), le_rfl⟩
    · exact absurd hleft (by omega)
  | succ left ih =>
    rcases expandAll_eq_ok_iff.1 h with
      ⟨hnone, rfl, -⟩ | ⟨before, head, after, left', p, t, rest, hsplit, hleft, hp, hrest, rfl⟩
    · exact ⟨.done (Form.splitFirst?_eq_none_iff.1 hnone), Nat.zero_le _⟩
    · obtain rfl := Nat.succ.inj hleft
      obtain ⟨i, -, -, hi⟩ := choose_eq_ok_iff.1 hp
      obtain ⟨hmem, hhead, hpermits⟩ := mem_candidates_iff.1 (List.mem_of_getElem? hi)
      obtain ⟨hleads, hlength⟩ := ih hrest (show taken + 1 + left = b.limit by omega)
      -- The steps remaining of the whole bound decide the pressure, not those of the limit.
      have hremaining : b.whole - taken = left + 1 - b.excess := by
        unfold DepthBound.limit at hlimit
        omega
      refine ⟨.step ⟨p, hmem, rfl, ?_, ?_⟩ hleads, ?_⟩
      · rw [Production.expands_iff, hhead]
        exact ⟨before, after, hsplit, rfl⟩
      · rw [hremaining]
        exact hpermits
      · rw [List.length_cons]
        omega

/-- The text of a trace is that of its last form. -/
theorem finish_text {steps : List Step} {s : Step} (h : steps.getLast? = some s) :
    (finish steps).text = s.form.terminalText := by
  simp [finish, h]

/-- A derivation is the start symbol and steps that lead on from it, no more than the limit. -/
theorem leads_of_derive {e e' : Engine σ} {d : Derivation} (h : derive.runOn e = (.ok d, e')) :
    ∃ steps, d = finish (⟨[e.grammar.start], none⟩ :: steps) ∧
      e.grammar.Leads e.bound.whole 0 [e.grammar.start] steps ∧ steps.length ≤ e.bound.limit := by
  obtain ⟨steps, source, hsteps, rfl, -⟩ := derive_eq_ok_iff.1 h
  exact ⟨steps, rfl, leads_of_expandAll hsteps (Nat.zero_add _)⟩

/-- What an engine derives ends with a terminal form of its grammar. -/
theorem completes_of_derive {e e' : Engine σ} {d : Derivation} (h : derive.runOn e = (.ok d, e')) :
    e.grammar.Completes d := by
  obtain ⟨steps, rfl, hleads, -⟩ := leads_of_derive h
  obtain ⟨last, hlast, hterminal, hderives⟩ := hleads.derives none
  have hfinal : (finish (⟨[e.grammar.start], none⟩ :: steps)).finalForm = last.form := by
    simp [Derivation.finalForm, finish, hlast]
  exact ⟨hfinal ▸ hderives, hfinal ▸ hterminal, hfinal ▸ finish_text hlast⟩

/-- What an engine derives is generated by its grammar. -/
theorem generates_of_derive {e e' : Engine σ} {d : Derivation} (h : derive.runOn e = (.ok d, e')) :
    e.grammar.Generates d.text := (completes_of_derive h).generates

/-- What an engine derives is a leftmost derivation within its bound, with the text of its trace. -/
theorem traced_of_derive {D : Nat} {e e' : Engine σ} {d : Derivation}
    (hD : DepthBound.ofValue (.int D) = .ok e.bound)
    (hstart : e.grammar.start.isNonterminal = true) (h : derive.runOn e = (.ok d, e')) :
    e.grammar.IsDerivation D d.steps ∧ d = finish d.steps := by
  obtain ⟨steps, rfl, hleads, hlength⟩ := leads_of_derive h
  obtain ⟨-, hwhole, hexcess, -⟩ := DepthBound.eq_of_ofValue_int hD
  rw [hwhole] at hleads
  rw [DepthBound.limit, hwhole, hexcess, Nat.add_zero] at hlength
  exact ⟨hleads.isDerivation hstart hlength, rfl⟩

/-- **A trace that an engine returns is a leftmost derivation** of its grammar within its bound, in
forms of declared symbols, and the text is that of the last form: its names with single blanks
between them, or `ε` if there are none. This holds for every source. -/
theorem isDerivation_of_derive {D : Nat} {e e' : Engine σ} {d : Derivation}
    (hD : DepthBound.ofValue (.int D) = .ok e.bound)
    (hstart : e.grammar.start.isNonterminal = true) (h : derive.runOn e = (.ok d, e')) :
    e.grammar.IsDerivation D d.steps ∧
      (∀ s ∈ d.steps, ∀ x ∈ s.form, x.Declared e.grammar.nonterminals e.grammar.terminals) ∧
      ∃ last, d.steps.getLast? = some last ∧
        d.text = if last.form = [] then "ε" else " ".intercalate (last.form.map Symbol.name) := by
  have htraced := traced_of_derive hD hstart h
  obtain ⟨steps, rfl, hleads, -⟩ := leads_of_derive h
  obtain ⟨name, hname⟩ := Symbol.exists_eq_nonterminal hstart
  have hdeclared : ∀ x ∈ [e.grammar.start],
      x.Declared e.grammar.nonterminals e.grammar.terminals := by
    intro x hx
    obtain rfl := List.mem_singleton.1 hx
    have hmem := e.grammar.start_mem
    rw [hname] at hmem ⊢
    exact hmem
  obtain ⟨last, hlast, hterminal, -⟩ := hleads.derives none
  refine ⟨htraced.1, ?_, last, hlast, ?_⟩
  · intro s hs
    rcases List.mem_cons.1 hs with rfl | hs
    · exact hdeclared
    · exact hleads.declared hdeclared s hs
  · rw [finish_text hlast, Form.terminalText, Form.terminals_eq_map_name hterminal]
    simp [epsilon, Text.unwords]

/-- The grammar of one or more letters, with a left-recursive production. -/
def letters : Grammar where
  name := .text "letters"
  nonterminals := [.nonterminal "S"]
  terminals := [.terminal "a"]
  productions := [⟨"S", [.nonterminal "S", .terminal "a"]⟩, ⟨"S", [.terminal "a"]⟩]
  start := .nonterminal "S"
  start_mem := by simp
  declared := by simp [Production.Declared, Production.headSymbol, Symbol.Declared]

/-- An engine of six steps that always draws the first candidate. -/
def letterEngine : Engine Random.Script where
  grammar := letters
  bound := { given := .int 6, whole := 6, whole_pos := by decide }
  source := { first := 0, others := [] }

/-- Five steps take the left-recursive production. The sixth is under pressure and ends. -/
theorem isDerivation_letters :
    ∃ d e', DepthBound.ofValue (.int (6 : Nat)) = .ok letterEngine.bound ∧
      letterEngine.grammar.start.isNonterminal = true ∧ derive.runOn letterEngine = (.ok d, e') ∧
      letters.IsDerivation 6 d.steps ∧ d.text = "a a a a a a" :=
  have hD := DepthBound.ofValue_int (n := 6) (by decide)
  ⟨_, _, hD, rfl, rfl, (isDerivation_of_derive (e := letterEngine) hD rfl rfl).1, rfl⟩

end Engine

end GrammarSuite
