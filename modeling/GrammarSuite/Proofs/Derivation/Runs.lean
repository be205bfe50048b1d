import GrammarSuite.Proofs.Derivation.Attempts

/-!
# Runs of a derivation

A run starts at the start symbol and makes one expansion after the other, each with one draw. It
stops at a terminal form, at the bound, or at a nonterminal without productions, and the draws of
its source decide which of these it is. The forms on the way are described apart from the engine:
a run that fails leaves no trace, but it reached a form all the same.

## Main definitions

* `Engine.Reaches`: a form and a state of the source are reached by a number of expansions
* `Engine.Stops`: there is no further expansion from a form
* `Engine.Ends`: the outcome of a run that stops at a form
* `Engine.RunsWithin`: when a run fails and how, and what it draws

## Main results

* `Engine.Reaches.stop_unique`: a run stops at one form only
* `Engine.derive_ends`: a derivation ends at a form that is reached, as such a form makes it end
* `Engine.runsWithin_of_eq`: the failures and the draws of a derivation
-/

namespace GrammarSuite

open GrammarSuite.Action GrammarSuite.Random

/-- A form that is cut at a nonterminal has one. -/
theorem Form.hasNonterminal_of_splitFirst? {form : Form} {cut : Form × String × Form}
    (h : form.splitFirst? = some cut) : form.hasNonterminal = true := by
  rw [← Bool.not_eq_false, ← Form.splitFirst?_eq_none_iff, h]
  exact Option.some_ne_none cut

/-- The first nonterminal of a form has no productions. -/
def Grammar.IsStuck (g : Grammar) (form : Form) (symbol : Symbol) : Prop :=
  ∃ before head after, form.splitFirst? = some (before, head, after) ∧
    symbol = .nonterminal head ∧ g.productionsFor symbol = []

theorem Grammar.IsStuck.unique {g : Grammar} {form : Form} {symbol symbol' : Symbol}
    (h : g.IsStuck form symbol) (h' : g.IsStuck form symbol') : symbol = symbol' := by
  obtain ⟨before, head, after, hsplit, rfl, -⟩ := h
  obtain ⟨before', head', after', hsplit', rfl, -⟩ := h'
  rw [hsplit] at hsplit'
  obtain ⟨-, rfl, -⟩ : before = before' ∧ head = head' ∧ after = after' := by simpa using hsplit'
  rfl

theorem Grammar.IsStuck.hasNonterminal {g : Grammar} {form : Form} {symbol : Symbol}
    (h : g.IsStuck form symbol) : form.hasNonterminal = true := by
  obtain ⟨before, head, after, hsplit, -, -⟩ := h
  exact Form.hasNonterminal_of_splitFirst? hsplit

namespace Engine

variable {σ : Type} [Source σ] {g : Grammar} {b : DepthBound} {bound k k' remaining : Nat}
  {form form' : Form} {s t t' : σ}

/-! ## The forms that are reached -/

/-- **A form and a state of the source are reached** by a number of expansions of the start symbol.
Each expansion draws the position of one of the candidates for the first nonterminal. -/
inductive Reaches (g : Grammar) (bound : Nat) (s : σ) : Nat → Form → σ → Prop
  | start : Reaches g bound s 0 [g.start] s
  | expand {k i : Nat} {form before after : Form} {head : String} {p : Production} {t u : σ}
      (h : Reaches g bound s k form t) (hsplit : form.splitFirst? = some (before, head, after))
      (hnext : Source.next 0 (candidates g bound (bound - k) (.nonterminal head)).length t = (i, u))
      (hp : (candidates g bound (bound - k) (.nonterminal head))[i]? = some p) :
      Reaches g bound s (k + 1) (before ++ p.body ++ after) u

/-- There is no further expansion from a form that is reached by so many expansions. -/
def Stops (g : Grammar) (bound k : Nat) (form : Form) : Prop :=
  form.hasNonterminal = false ∨ k = bound ∨ ∃ symbol, g.IsStuck form symbol

theorem Reaches.unique (h : Reaches g bound s k form t) (h' : Reaches g bound s k form' t') :
    form = form' ∧ t = t' := by
  induction h generalizing form' t' with
  | start =>
    cases h' with
    | start => exact ⟨rfl, rfl⟩
  | expand h hsplit hnext hp ih =>
    cases h' with
    | expand h' hsplit' hnext' hp' =>
      -- The forms before are the same, and so are their candidates and the draw.
      obtain ⟨rfl, rfl⟩ := ih h'
      rw [hsplit] at hsplit'
      obtain ⟨rfl, rfl, rfl⟩ : _ = _ ∧ _ = _ ∧ _ = _ := by simpa using hsplit'
      rw [hnext] at hnext'
      obtain ⟨rfl, rfl⟩ := Prod.mk.inj hnext'
      rw [hp] at hp'
      obtain rfl := Option.some.inj hp'
      exact ⟨rfl, rfl⟩

/-- A form that is not the last one on the way was expanded. -/
theorem Reaches.exists_not_stops (h : Reaches g bound s k' form' t') (hk : k < k')
    (hbound : k' ≤ bound) : ∃ form t, Reaches g bound s k form t ∧ ¬ Stops g bound k form := by
  induction h with
  | start => omega
  | @expand m i form before after head p t u h hsplit hnext hp ih =>
    rcases Nat.lt_succ_iff_lt_or_eq.1 hk with hlt | rfl
    · exact ih hlt (by omega)
    refine ⟨form, t, h, ?_⟩
    rintro (hform | hk | ⟨symbol, before', head', after', hsplit', rfl, hnil⟩)
    · rw [Form.splitFirst?_eq_none_iff.2 hform] at hsplit
      cases hsplit
    · omega
    · -- An expansion takes a production, so that there was one.
      rw [hsplit] at hsplit'
      obtain ⟨rfl, rfl, rfl⟩ : _ = _ ∧ _ = _ ∧ _ = _ := by simpa using hsplit'
      obtain ⟨hmem, hhead, -⟩ := mem_candidates_iff.1 (List.mem_of_getElem? hp)
      have hproduction := Grammar.mem_productionsFor_iff.2 ⟨hmem, hhead⟩
      rw [hnil] at hproduction
      cases hproduction

/-- **A run stops at one form only.** -/
theorem Reaches.stop_unique (h : Reaches g bound s k form t) (hstop : Stops g bound k form)
    (hk : k ≤ bound) (h' : Reaches g bound s k' form' t') (hstop' : Stops g bound k' form')
    (hk' : k' ≤ bound) : k = k' ∧ form = form' ∧ t = t' := by
  have hnot : ∀ {k k' form form' t t'}, Reaches g bound s k form t → Stops g bound k form →
      Reaches g bound s k' form' t' → k' ≤ bound → ¬ k < k' := by
    intro k k' form form' t t' h hstop h' hk' hlt
    obtain ⟨form₁, t₁, h₁, hnot⟩ := h'.exists_not_stops hlt hk'
    obtain ⟨rfl, -⟩ := h.unique h₁
    exact hnot hstop
  obtain rfl : k = k' :=
    le_antisymm (not_lt.1 (hnot h' hstop' h hk)) (not_lt.1 (hnot h hstop h' hk'))
  exact ⟨rfl, h.unique h'⟩

/-- Where the source keeps a record, each expansion is one draw. -/
theorem Reaches.count {s t : Recorded σ} (h : Reaches g bound s k form t) :
    t.count = s.count + k := by
  induction h with
  | start => rfl
  | @expand k i form before after head p t u h hsplit hnext hp ih =>
    obtain ⟨-, rfl⟩ := Prod.mk.inj hnext
    show t.count + 1 = s.count + (k + 1)
    omega

/-! ## The end of a run -/

/-- The outcome of a run that stops at a form. -/
inductive Ends (g : Grammar) (bound k : Nat) (form : Form) : Except Failure Derivation → Prop
  | terminal {d : Derivation} (hform : form.hasNonterminal = false) (hk : k ≤ bound)
      (hlength : d.steps.length = k + 1) : Ends g bound k form (.ok d)
  | deep (hform : form.hasNonterminal = true) (hk : k = bound) :
      Ends g bound k form (.error (.depthExceeded ⟨.int bound, .derivation⟩))
  | stuck {symbol : Symbol} (h : g.IsStuck form symbol) (hk : k < bound) :
      Ends g bound k form (.error (.noProductions symbol))

theorem Ends.stops {r : Except Failure Derivation} (h : Ends g bound k form r) :
    Stops g bound k form ∧ k ≤ bound := by
  cases h with
  | terminal hform hk => exact ⟨.inl hform, hk⟩
  | deep hform hk => exact ⟨.inr (.inl hk), hk.le⟩
  | stuck h hk => exact ⟨.inr (.inr ⟨_, h⟩), hk.le⟩

variable [LawfulSource σ]

/-- A choice takes the production at the next number of the source, if there is one to take. -/
theorem choose_cases (symbol : Symbol) (productions : List Production) (s : σ) :
    (productions = [] ∧ (choose symbol productions).runOn s = (.error (.noProductions symbol), s)) ∨
      ∃ i p t, (choose symbol productions).runOn s = (.ok p, t) ∧
        Source.next 0 productions.length s = (i, t) ∧ productions[i]? = some p := by
  rcases hrun : (choose symbol productions).runOn s with ⟨f | p, t⟩
  · obtain ⟨rfl, rfl⟩ := choose_failsOnly s f t hrun
    exact .inl ⟨rfl, hrun.symm⟩
  · obtain ⟨i, -, hnext, hp⟩ := choose_eq_ok_iff.1 hrun
    exact .inr ⟨i, p, t, rfl, hnext, hp⟩

theorem candidates_eq_nil_iff {whole : Nat} {head : String} :
    candidates g whole remaining (.nonterminal head) = [] ↔
      g.productionsFor (.nonterminal head) = [] := by
  constructor
  · exact fun h => by_contra fun hne => candidates_ne_nil hne h
  · intro h
    rw [candidates, h]
    simp

/-- Expanding goes on from a form that is reached to one where it stops, and the trace grows by one
step with each expansion. -/
theorem expandAll_ends (hwhole : b.whole = bound) (hexcess : b.excess = 0)
    (hgiven : b.given = .int bound) (h : Reaches g bound s k form t) (hk : k + remaining = bound) :
    ∃ k' form' r t', Reaches g bound s k' form' t' ∧
      (expandAll g b remaining form).runOn t = (r, t') ∧
      ∀ trace : List Step, trace.length = k + 1 →
        Ends g bound k' form' (r.map fun steps => finish (trace ++ steps)) := by
  -- Induction on the expansions that remain; the forms behind them are reached by the ones before.
  induction remaining generalizing k form t with
  | zero =>
    rcases hsplit : form.splitFirst? with _ | ⟨before, head, after⟩
    · refine ⟨k, form, .ok [], t, h,
        expandAll_eq_ok_iff.2 (.inl ⟨hsplit, rfl, rfl⟩), fun trace htrace => ?_⟩
      exact .terminal (Form.splitFirst?_eq_none_iff.1 hsplit) (by omega) (by simpa [finish])
    · have hform : form.hasNonterminal = true :=
        Form.hasNonterminal_of_splitFirst? hsplit
      refine ⟨k, form, _, t, h, by rw [expandAll, hsplit]; rfl, fun trace _ => ?_⟩
      rw [hgiven]
      exact .deep hform hk
  | succ left ih =>
    rcases hsplit : form.splitFirst? with _ | ⟨before, head, after⟩
    · refine ⟨k, form, .ok [], t, h,
        expandAll_eq_ok_iff.2 (.inl ⟨hsplit, rfl, rfl⟩), fun trace htrace => ?_⟩
      exact .terminal (Form.splitFirst?_eq_none_iff.1 hsplit) (by omega) (by simpa [finish])
    have hremaining : left + 1 - b.excess = bound - k := by omega
    have hexpand : (expandAll g b (left + 1) form : Action σ Failure (List Step)) =
        choose (.nonterminal head)
            (candidates g b.whole (left + 1 - b.excess) (.nonterminal head)) >>= fun p =>
          (⟨before ++ p.body ++ after, some p⟩ :: ·) <$>
            expandAll g b left (before ++ p.body ++ after) := by
      rw [expandAll, hsplit]
      rfl
    rw [hwhole, hremaining] at hexpand
    rcases choose_cases (.nonterminal head) (candidates g bound (bound - k) (.nonterminal head)) t
      with ⟨hnil, hrun⟩ | ⟨i, p, u, hrun, hnext, hp⟩
    · refine ⟨k, form, .error (.noProductions (.nonterminal head)), t, h, ?_, fun trace _ => ?_⟩
      · rw [hexpand, runOn_bind, hrun]
      · exact .stuck ⟨before, head, after, hsplit, rfl, candidates_eq_nil_iff.1 hnil⟩ (by omega)
    · obtain ⟨k', form', r, t', hreaches, hrest, hends⟩ :=
        ih (h.expand hsplit hnext hp) (by omega)
      refine ⟨k', form', r.map fun steps => ⟨before ++ p.body ++ after, some p⟩ :: steps, t',
        hreaches, ?_, fun trace htrace => ?_⟩
      · rw [hexpand, runOn_bind, hrun]
        dsimp only
        rw [runOn_map, hrest]
      · have hlast := hends (trace ++ [⟨before ++ p.body ++ after, some p⟩]) (by simp [htrace])
        cases r with
        | error f => exact hlast
        | ok steps => simpa [Except.map] using hlast

/-- **A derivation ends at a form that is reached**, as such a form makes it end. -/
theorem derive_ends {e : Engine σ} (hbound : DepthBound.ofValue (.int bound) = .ok e.bound) :
    ∃ k form, Reaches e.grammar bound e.source k form (derive.runOn e).2.source ∧
      Ends e.grammar bound k form (derive.runOn e).1 := by
  obtain ⟨-, hwhole, hexcess, hgiven⟩ := DepthBound.eq_of_ofValue_int hbound
  have hlimit : e.bound.limit = bound := by rw [DepthBound.limit, hwhole, hexcess, Nat.add_zero]
  obtain ⟨k, form, r, t, hreaches, hrun, hends⟩ :=
    expandAll_ends hwhole hexcess hgiven (Reaches.start (g := e.grammar) (s := e.source))
      (Nat.zero_add bound)
  have hfirst := hends [⟨[e.grammar.start], none⟩] rfl
  refine ⟨k, form, ?_⟩
  simp only [derive, runOn_ofFunction, hlimit, hrun]
  cases r with
  | error f => exact ⟨hreaches, hfirst⟩
  | ok steps => exact ⟨hreaches, hfirst⟩

/-! ## When a run fails, and what it draws -/

/-- When a derivation of an engine with a bound fails and how, and what it draws. -/
structure RunsWithin (g : Grammar) (bound : Nat) (e : Engine (Recorded σ)) : Prop where
  /-- There is one draw for each expansion. -/
  draws : ∃ k form, Reaches g bound e.source k form (derive.runOn e).2.source ∧
    Stops g bound k form ∧ (derive.runOn e).2.source.count = e.source.count + k ∧
    ∀ d, (derive.runOn e).1 = .ok d → d.expansions = k
  /-- The bound is reported if a nonterminal remains after as many expansions. -/
  deep : ∀ x, (derive.runOn e).1 = .error (.depthExceeded x) ↔
    x = ⟨.int bound, .derivation⟩ ∧
      ∃ form t, Reaches g bound e.source bound form t ∧ form.hasNonterminal = true
  /-- A nonterminal is reported if it comes first after fewer expansions, and has no productions. -/
  stuck : ∀ symbol, (derive.runOn e).1 = .error (.noProductions symbol) ↔
    ∃ k form t, k < bound ∧ Reaches g bound e.source k form t ∧ g.IsStuck form symbol
  only : ∀ f, (derive.runOn e).1 = .error f →
    (∃ x, f = .depthExceeded x) ∨ ∃ symbol, f = .noProductions symbol
  /-- No nonterminal is reported if each has productions. -/
  complete : (∀ symbol ∈ g.nonterminals, g.productionsFor symbol ≠ []) →
    ∀ symbol, (derive.runOn e).1 ≠ .error (.noProductions symbol)

theorem runsWithin_of_eq {e : Engine (Recorded σ)}
    (hbound : DepthBound.ofValue (.int bound) = .ok e.bound) :
    e.RunsWithin e.grammar bound := by
  obtain ⟨k, form, hreaches, hends⟩ := derive_ends hbound
  obtain ⟨hstops, hk⟩ := hends.stops
  -- Wherever a run may stop, this one stops there.
  have hsame : ∀ {k' form' t'}, Reaches e.grammar bound e.source k' form' t' →
      Stops e.grammar bound k' form' → k' ≤ bound → k' = k ∧ form' = form := by
    intro k' form' t' h hstop hk'
    obtain ⟨hk, hform, -⟩ := h.stop_unique hstop hk' hreaches hstops hk
    exact ⟨hk, hform⟩
  constructor
  case draws =>
    refine ⟨k, form, hreaches, hstops, hreaches.count, fun d hd => ?_⟩
    rw [hd] at hends
    cases hends with
    | terminal hform hk hlength =>
      rw [Derivation.expansions, hlength]
      omega
  case deep =>
    intro x
    constructor
    · intro h
      rw [h] at hends
      cases hends with
      | deep hform hk => exact ⟨rfl, form, _, hk ▸ hreaches, hform⟩
    · rintro ⟨rfl, form', t', h, hform'⟩
      obtain ⟨rfl, rfl⟩ := hsame h (.inr (.inl rfl)) le_rfl
      generalize (derive.runOn e).1 = r at hends
      cases hends with
      | terminal hform => simp [hform] at hform'
      | deep => rfl
      | stuck h hk => omega
  case stuck =>
    intro symbol
    constructor
    · intro h
      rw [h] at hends
      cases hends with
      | stuck h hk => exact ⟨k, form, _, hk, hreaches, h⟩
    · rintro ⟨k', form', t', hk', h, hstuck⟩
      obtain ⟨rfl, rfl⟩ := hsame h (.inr (.inr ⟨symbol, hstuck⟩)) hk'.le
      have hstuck' := hstuck.hasNonterminal
      generalize (derive.runOn e).1 = r at hends
      cases hends with
      | terminal hform => simp [hform] at hstuck'
      | deep => omega
      | stuck h hk => rw [h.unique hstuck]
  case only =>
    intro f hf
    rw [hf] at hends
    cases hends with
    | deep => exact .inl ⟨_, rfl⟩
    | stuck => exact .inr ⟨_, rfl⟩
  case complete =>
    intro hall symbol h
    obtain ⟨n, hf, hdeclared, hnil⟩ : e.grammar.IsLack (.noProductions symbol) := by
      rcases derive_failsOnly e _ _ (Prod.ext h rfl) with ⟨d, hd⟩ | hlack
      · cases hd
      · exact hlack
    exact hall _ hdeclared hnil

end Engine

end GrammarSuite
