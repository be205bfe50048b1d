import GrammarSuite.Proofs.Extreme.Search

/-!
# The first best trial

Three kinds of extreme strings are searched by trials. A search makes as many attempts at a
derivation as its kind says, one after the other on its source, and keeps the first one whose score
no other exceeds. It makes all of them, whatever they give, unless the grammar lacks productions: then
it fails with the first attempt that meets this.

## Main definitions

* `Trials`, `ExtremeKind.trials?`: the kinds that are searched by trials, and how
* `Engine.IsFirstBest`: the first derivation with the best score among attempts
* `Finder.Outcome`: what a search gives, by the attempts of an engine

## Main results

* `Engine.best_of_attempts`, `Engine.best_of_failure`: the best of a number of attempts against the
  attempts
* `Engine.bestAmong_spec`: what is kept of attempts is the first best of them
* `Finder.outcome_of_find`: what a search by trials gives
* `Finder.best_of_find`, `Finder.derivation_of_find`: what it finds is the best of its trials, which is
  a derivation within its bound
* `Finder.find_is_first_best`: a search by trials gives the first best of its attempts
-/

namespace GrammarSuite

open GrammarSuite.Action GrammarSuite.Random

open Json (Value)

/-- A search by trials. -/
structure Trials where
  number : Nat
  /-- By how much the bound of a derivation is multiplied. -/
  factor : Nat
  score : Derivation → Nat
  /-- What is given if no trial succeeds within a bound: a text with its score, or a failure. -/
  otherwise : Nat → Except DepthExceeded (String × Nat)

/-- The search of a kind by trials. -/
def ExtremeKind.trials? : ExtremeKind → Option Trials
  | .maxDepth => some {
      number := 10
      factor := 2
      score := fun d => d.steps.length
      otherwise := fun bound => .error ⟨.int bound, .deepest⟩ }
  | .maxComplexity => some {
      number := 20
      factor := 1
      score := fun d => Token.countOperators (Token.tokenize d.text)
      otherwise := fun _ => .ok (Extreme.complexityFallback,
        Token.countOperators (Token.tokenize Extreme.complexityFallback)) }
  | .longExpression => some {
      number := 15
      factor := 2
      score := fun d => (Token.tokenize d.text).length
      otherwise := fun bound => .error ⟨.int bound, .longest⟩ }
  | .minDepth | .shortExpression | .maxNesting => none

/-- An extreme string of a kind has a text, and a score as the value of its measure. -/
structure Extreme.Shows (x : Extreme) (kind : ExtremeKind) (text : String) (score : Nat) : Prop where
  text : x.text = text
  kind : x.kind = kind
  value : x.value = .int score

namespace Engine

variable {σ : Type} [Source σ] {score : Derivation → Nat} {n k : Nat} {e e₁ e₂ e' : Engine σ}
  {ds : List (Option Derivation)} {d : Derivation} {f : Failure} {found : Option (Derivation × Nat)}

/-! ## The first best of attempts -/

/-- A derivation among the outcomes of attempts whose score none exceeds and none before it
reaches. -/
def IsFirstBest (score : Derivation → Nat) (ds : List (Option Derivation)) (d : Derivation) : Prop :=
  ∃ before after, ds = before ++ some d :: after ∧
    (∀ d', some d' ∈ before → score d' < score d) ∧ ∀ d', some d' ∈ after → score d' ≤ score d

/-- The better one of what was found and the outcome of one more attempt. -/
def kept (score : Derivation → Nat) (found : Option (Derivation × Nat)) :
    Option Derivation → Option (Derivation × Nat)
  | none => found
  | some d => better found d (score d)

/-- What is kept of the outcomes of attempts. -/
def bestAmong (score : Derivation → Nat) (ds : List (Option Derivation)) :
    Option (Derivation × Nat) := ds.foldl (kept score) none

theorem IsFirstBest.mem (h : IsFirstBest score ds d) : some d ∈ ds := by
  obtain ⟨before, after, rfl, -, -⟩ := h
  simp

/-- No derivation exceeds the score of the best one. -/
theorem IsFirstBest.le (h : IsFirstBest score ds d) {d' : Derivation} (hd' : some d' ∈ ds) :
    score d' ≤ score d := by
  obtain ⟨before, after, rfl, hbefore, hafter⟩ := h
  simp only [List.mem_append, List.mem_cons, Option.some.injEq] at hd'
  rcases hd' with hd' | rfl | hd'
  · exact (hbefore d' hd').le
  · exact le_rfl
  · exact hafter d' hd'

/-- Scores that agree on all derivations have the same best one. -/
theorem IsFirstBest.congr {score' : Derivation → Nat}
    (hscore : ∀ d', some d' ∈ ds → score d' = score' d') (h : IsFirstBest score ds d) :
    IsFirstBest score' ds d := by
  obtain ⟨before, after, rfl, hbefore, hafter⟩ := h
  have hd := hscore d (by simp)
  refine ⟨before, after, rfl, fun d' hd' => ?_, fun d' hd' => ?_⟩
  · rw [← hd, ← hscore d' (by simp [hd'])]
    exact hbefore d' hd'
  · rw [← hd, ← hscore d' (by simp [hd'])]
    exact hafter d' hd'

/-- A later derivation takes the place of the best one only if it is better. -/
theorem IsFirstBest.kept (h : IsFirstBest score ds d) (outcome : Option Derivation) :
    ∃ d', kept score (some (d, score d)) outcome = some (d', score d') ∧
      IsFirstBest score (ds ++ [outcome]) d' := by
  obtain ⟨before, after, rfl, hbefore, hafter⟩ := id h
  cases outcome with
  | none =>
    refine ⟨d, rfl, before, after ++ [none], by simp, hbefore, fun d' hd' => hafter d' ?_⟩
    simpa using hd'
  | some next =>
    by_cases hnext : score d < score next
    · exact ⟨next, by simp [Engine.kept, better, hnext], before ++ some d :: after, [], by simp,
        fun d' hd' => (h.le hd').trans_lt hnext, by simp⟩
    · refine ⟨d, by simp [Engine.kept, better, hnext], before, after ++ [some next], by simp, hbefore,
        fun d' hd' => ?_⟩
      simp only [List.mem_append, List.mem_singleton, Option.some.injEq] at hd'
      rcases hd' with hd' | rfl
      · exact hafter d' hd'
      · exact Nat.not_lt.1 hnext

/-- **What is kept of attempts is the first best of them**, and nothing only if none succeeded. -/
theorem bestAmong_spec (score : Derivation → Nat) (ds : List (Option Derivation)) :
    (∃ d, bestAmong score ds = some (d, score d) ∧ IsFirstBest score ds d) ∨
      bestAmong score ds = none ∧ ∀ d, some d ∉ ds := by
  -- Induction on the outcomes from the last one.
  induction ds using List.reverseRecOn with
  | nil => exact .inr ⟨rfl, by simp⟩
  | append_singleton ds outcome ih =>
    rw [bestAmong, List.foldl_append, List.foldl_cons, List.foldl_nil, ← bestAmong]
    rcases ih with ⟨d, hd, hfirst⟩ | ⟨hnone, hall⟩
    · rw [hd]
      exact .inl (hfirst.kept outcome)
    · rw [hnone]
      cases outcome with
      | none => exact .inr ⟨rfl, by simpa using hall⟩
      | some d => exact .inl ⟨d, rfl, ds, [], rfl, fun d' hd' => absurd hd' (hall d'), by simp⟩

/-! ## The best of a number of attempts -/

/-- Keeping the best of a number of attempts makes all of them, and goes on with what they leave. -/
theorem best_of_attempts (h : (attempts n).runOn e = (.ok ds, e')) :
    (best score n found).runOn e = (.ok (ds.foldl (kept score) found), e') := by
  induction n generalizing e ds found with
  | zero =>
    obtain ⟨rfl, rfl⟩ := attempts_zero_eq_ok_iff.1 h
    rfl
  | succ n ih =>
    obtain ⟨outcome, e₁, rest, hfirst, hrest, rfl⟩ := attempts_succ_eq_ok_iff.1 h
    rw [best, runOn_bind, hfirst, List.foldl_cons]
    cases outcome with
    | none => exact ih hrest
    | some d => exact ih hrest

/-- A failure of an attempt ends the search, with what was drawn. -/
theorem best_of_failure (hk : k < n) (h : (attempts k).runOn e = (.ok ds, e₁))
    (hfail : attempt.runOn e₁ = (.error f, e₂)) :
    (best score n found).runOn e = (.error f, e₂) := by
  induction k generalizing n e ds found with
  | zero =>
    obtain ⟨rfl, rfl⟩ := attempts_zero_eq_ok_iff.1 h
    obtain ⟨n, rfl⟩ : ∃ j, n = j + 1 := ⟨n - 1, by omega⟩
    rw [best, runOn_bind, hfail]
  | succ k ih =>
    obtain ⟨n, rfl⟩ : ∃ j, n = j + 1 := ⟨n - 1, by omega⟩
    obtain ⟨outcome, e₃, rest, hfirst, hrest, rfl⟩ := attempts_succ_eq_ok_iff.1 h
    rw [best, runOn_bind, hfirst]
    cases outcome with
    | none => exact ih (by omega) hrest
    | some d => exact ih (by omega) hrest

/-- Either all of a number of attempts have an outcome, or there is a first one that fails. -/
theorem attempts_ok_or (n : Nat) (e : Engine σ) :
    (∃ ds e', (attempts n).runOn e = (.ok ds, e')) ∨
      ∃ k ds e₁ f e₂, k < n ∧ (attempts k).runOn e = (.ok ds, e₁) ∧
        attempt.runOn e₁ = (.error f, e₂) := by
  induction n generalizing e with
  | zero => exact .inl ⟨[], e, rfl⟩
  | succ n ih =>
    rcases hfirst : attempt.runOn e with ⟨f | outcome, e₁⟩
    · exact .inr ⟨0, [], e, f, e₁, Nat.succ_pos n, rfl, hfirst⟩
    · rcases ih e₁ with ⟨ds, e', hds⟩ | ⟨k, ds, e₂, f, e₃, hk, hds, hfail⟩
      · exact .inl ⟨_, e', attempts_succ_eq_ok_iff.2 ⟨outcome, e₁, ds, hfirst, hds, rfl⟩⟩
      · exact .inr ⟨k + 1, _, e₂, f, e₃, Nat.succ_lt_succ hk,
          attempts_succ_eq_ok_iff.2 ⟨outcome, e₁, ds, hfirst, hds, rfl⟩, hfail⟩

end Engine

namespace Finder

/-- What a search of a kind by trials gives, and the source that it leaves, by the attempts of an
engine. -/
inductive Outcome {σ : Type} [Source σ] (kind : ExtremeKind) (t : Trials) (bound : Nat)
    (e : Engine σ) : Except Failure Extreme → σ → Prop
  /-- The first best of the attempts, with its score. -/
  | best {ds : List (Option Derivation)} {e' : Engine σ} {d : Derivation} {x : Extreme}
    (hattempts : (Engine.attempts t.number).runOn e = (.ok ds, e'))
    (hbest : Engine.IsFirstBest t.score ds d) (hx : x.Shows kind d.text (t.score d)) :
    Outcome kind t bound e (.ok x) e'.source
  /-- No attempt succeeded, and the kind has a text for that. -/
  | fallback {ds : List (Option Derivation)} {e' : Engine σ} {text : String} {score : Nat}
    {x : Extreme} (hattempts : (Engine.attempts t.number).runOn e = (.ok ds, e'))
    (hnone : ∀ d, some d ∉ ds) (hother : t.otherwise bound = .ok (text, score))
    (hx : x.Shows kind text score) : Outcome kind t bound e (.ok x) e'.source
  /-- No attempt succeeded, and the kind fails then. -/
  | exhausted {ds : List (Option Derivation)} {e' : Engine σ} {reached : DepthExceeded}
    (hattempts : (Engine.attempts t.number).runOn e = (.ok ds, e')) (hnone : ∀ d, some d ∉ ds)
    (hother : t.otherwise bound = .error reached) :
    Outcome kind t bound e (.error (.depthExceeded reached)) e'.source
  /-- An attempt met a nonterminal without productions, and those before it did not. -/
  | lack {k : Nat} {ds : List (Option Derivation)} {e₁ e₂ : Engine σ} {symbol : Symbol}
    (hk : k < t.number) (hattempts : (Engine.attempts k).runOn e = (.ok ds, e₁))
    (hlack : Engine.attempt.runOn e₁ = (.error (.noProductions symbol), e₂)) :
    Outcome kind t bound e (.error (.noProductions symbol)) e₂.source

variable {σ : Type} [Source σ] {f : Finder σ} {e e' : Engine σ} {bound : Value}
  {score : Derivation → Nat} {trials : Nat} {kind : ExtremeKind} {t : Trials}

/-! ## Searches by trials -/

/-- A search keeps the best of its trials, with the outcome and the source that an engine of the same
bound and source has. -/
theorem bestOf_runOn (he : Engine.ofBound f.grammar bound f.source = .ok e) {outcome}
    (h : (Engine.best score trials none).runOn e = (outcome, e')) :
    ∃ f', (bestOf trials bound score).runOn f = (outcome, f') ∧ f'.source = e'.source := by
  -- The engine of the search has the records of the finder, which make no difference.
  obtain ⟨hout, -, -, hsource⟩ := Engine.best_alike score trials none
    { e with journal := f.journal } e ⟨rfl, rfl, rfl⟩
  rw [h] at hout hsource
  rcases hrun : (Engine.best score trials none).runOn { e with journal := f.journal } with
    ⟨out, engine⟩
  rw [hrun] at hout hsource
  obtain rfl : out = outcome := hout
  refine ⟨{ f with source := engine.source, journal := engine.journal }, ?_, hsource⟩
  simp only [bestOf, runOn_ofFunction, he, hrun]

/-- What a search of a kind makes of the best of its trials. -/
inductive Makes (kind : ExtremeKind) (t : Trials) (bound : Nat) :
    Option (Derivation × Nat) → Except Failure Extreme → Prop
  | best {d : Derivation} {score : Nat} {x : Extreme} (hx : x.Shows kind d.text score) :
    Makes kind t bound (some (d, score)) (.ok x)
  | fallback {text : String} {score : Nat} {x : Extreme}
    (hother : t.otherwise bound = .ok (text, score)) (hx : x.Shows kind text score) :
    Makes kind t bound none (.ok x)
  | exhausted {reached : DepthExceeded} (hother : t.otherwise bound = .error reached) :
    Makes kind t bound none (.error (.depthExceeded reached))

omit [Source σ] in
theorem deepBound_runOn {B : Nat} (hbound : f.depthBound = .int B) :
    deepBound.runOn f = (.ok (.int (2 * B : Nat)), f) := by
  have hdouble : (B : Int) * 2 = (2 * B : Nat) := by omega
  simp [deepBound, hbound, DepthBound.doubled, hdouble]

/-- A search by trials makes its trials and then draws no more. -/
theorem find_eq_bestOf_bind {B : Nat} (hbound : f.depthBound = .int B)
    (ht : kind.trials? = some t) :
    ∃ finish : Option (Derivation × Nat) → Action (Finder σ) Failure Extreme,
      (find kind).runOn f =
        (bestOf t.number (.int (t.factor * B : Nat)) t.score >>= finish).runOn f ∧
      ∀ found f₁, ((finish found).runOn f₁).2.source = f₁.source ∧
        Makes kind t (t.factor * B) found ((finish found).runOn f₁).1 := by
  cases kind with
  | minDepth | shortExpression | maxNesting => cases ht
  | maxDepth =>
    obtain rfl := Option.some.inj ht
    refine ⟨_, by rw [find, deepest, runOn_bind, deepBound_runOn hbound]; rfl, fun found f₁ => ?_⟩
    cases found with
    | none => exact ⟨rfl, .exhausted rfl⟩
    | some found => exact ⟨rfl, .best ⟨rfl, rfl, rfl⟩⟩
  | maxComplexity =>
    obtain rfl := Option.some.inj ht
    have hone : f.depthBound = .int (1 * B : Nat) := by rw [hbound, Nat.one_mul]
    refine ⟨_, by rw [find, mostComplex, runOn_bind, runOn_get]; dsimp only; rw [hone]; rfl,
      fun found f₁ => ?_⟩
    cases found with
    | none => exact ⟨rfl, .fallback rfl ⟨rfl, rfl, rfl⟩⟩
    | some found => exact ⟨rfl, .best ⟨rfl, rfl, rfl⟩⟩
  | longExpression =>
    obtain rfl := Option.some.inj ht
    refine ⟨_, by rw [find, longest, runOn_bind, deepBound_runOn hbound]; rfl, fun found f₁ => ?_⟩
    cases found with
    | none => exact ⟨rfl, .exhausted rfl⟩
    | some found => exact ⟨rfl, .best ⟨rfl, rfl, rfl⟩⟩

omit [Source σ] in
/-- There is an engine with the bound of a search by trials. -/
theorem exists_ofBound {B : Nat} (hB : 0 < B) (ht : kind.trials? = some t) (f : Finder σ) :
    ∃ e, Engine.ofBound f.grammar (.int (t.factor * B : Nat)) f.source = .ok e := by
  have hfactor : 0 < t.factor := by
    cases kind <;> simp only [ExtremeKind.trials?, Option.some.injEq, reduceCtorEq] at ht <;>
      subst ht <;> decide
  rw [Engine.ofBound, DepthBound.ofValue_int (Nat.mul_pos hfactor hB)]
  exact ⟨_, rfl⟩

/-- What a search by trials gives is an outcome of the attempts of an engine with its bound. -/
theorem outcome_of_find [LawfulSource σ] {B : Nat} (hbound : f.depthBound = .int B)
    (ht : kind.trials? = some t)
    (he : Engine.ofBound f.grammar (.int (t.factor * B : Nat)) f.source = .ok e)
    {r : Except Failure Extreme} {f' : Finder σ} (hrun : (find kind).runOn f = (r, f')) :
    Outcome kind t (t.factor * B) e r f'.source := by
  obtain ⟨finish, hfind, hfinish⟩ := find_eq_bestOf_bind hbound ht
  rw [hrun, runOn_bind] at hfind
  rcases Engine.attempts_ok_or t.number e with
    ⟨ds, e', hds⟩ | ⟨k, ds, e₁, failure, e₂, hk, hds, hfail⟩
  · obtain ⟨f₁, hbest, hsource⟩ := bestOf_runOn he (Engine.best_of_attempts hds)
    rw [hbest] at hfind
    have hgiven : (finish (Engine.bestAmong t.score ds)).runOn f₁ = (r, f') := hfind.symm
    obtain ⟨hkept, hmakes⟩ := hfinish (Engine.bestAmong t.score ds) f₁
    rw [hgiven] at hkept hmakes
    rw [show f'.source = e'.source from hkept.trans hsource]
    rcases Engine.bestAmong_spec t.score ds with ⟨d, hd, hfirst⟩ | ⟨hnone, hall⟩
    · rw [hd] at hmakes
      cases hmakes with
      | best hx => exact .best hds hfirst hx
    · rw [hnone] at hmakes
      cases hmakes with
      | fallback hother hx => exact .fallback hds hall hother hx
      | exhausted hother => exact .exhausted hds hall hother
  · obtain ⟨f₁, hbest, hsource⟩ := bestOf_runOn he (Engine.best_of_failure hk hds hfail)
    rw [hbest] at hfind
    obtain ⟨rfl, rfl⟩ := Prod.mk.inj hfind
    obtain ⟨name, rfl, -⟩ := Engine.attempt_failsOnly e₁ _ _ hfail
    rw [hsource]
    exact .lack hk hds hfail

/-- Only the search for the most operators has a text for when no trial succeeds. -/
theorem eq_maxComplexity_of_otherwise {bound : Nat} {r : String × Nat} (ht : kind.trials? = some t)
    (hother : t.otherwise bound = .ok r) : kind = .maxComplexity := by
  cases kind with
  | maxComplexity => rfl
  | minDepth | shortExpression | maxNesting => cases ht
  | maxDepth | longExpression =>
    obtain rfl := Option.some.inj ht
    cases hother

section

variable [LawfulSource σ] {B : Nat} {x : Extreme} {f' : Finder σ}

/-- A search by trials that finds something has made all its attempts, and found the first best of
them, unless none succeeded. -/
theorem best_of_find (hB : 0 < B) (hbound : f.depthBound = .int B) (ht : kind.trials? = some t)
    (hrun : (find kind).runOn f = (.ok x, f')) :
    ∃ e ds e', Engine.ofBound f.grammar (.int (t.factor * B : Nat)) f.source = .ok e ∧
      (Engine.attempts t.number).runOn e = (.ok ds, e') ∧
      ((∃ d, Engine.IsFirstBest t.score ds d ∧ x.Shows kind d.text (t.score d)) ∨
        (∀ d, some d ∉ ds) ∧ kind = .maxComplexity) := by
  obtain ⟨e, he⟩ := exists_ofBound hB ht f
  have hfound := outcome_of_find hbound ht he hrun
  generalize f'.source = s at hfound
  cases hfound with
  | best hattempts hbest hx => exact ⟨e, _, _, he, hattempts, .inl ⟨_, hbest, hx⟩⟩
  | fallback hattempts hnone hother hx =>
    exact ⟨e, _, _, he, hattempts, .inr ⟨hnone, eq_maxComplexity_of_otherwise ht hother⟩⟩

/-- What is found is a derivation within the bound of the search, unless no trial succeeded. -/
theorem derivation_of_find (hB : 0 < B) (hbound : f.depthBound = .int B)
    (hstart : f.grammar.start.isNonterminal = true) (ht : kind.trials? = some t)
    (hrun : (find kind).runOn f = (.ok x, f')) :
    ∃ e ds e', Engine.ofBound f.grammar (.int (t.factor * B : Nat)) f.source = .ok e ∧
      (Engine.attempts t.number).runOn e = (.ok ds, e') ∧
      ((∃ d, some d ∈ ds ∧ f.grammar.IsDerivation (t.factor * B) d.steps ∧
          d = Engine.finish d.steps ∧ x.Shows kind d.text (t.score d)) ∨
        (∀ d, some d ∉ ds) ∧ kind = .maxComplexity) := by
  obtain ⟨e, ds, e', he, hattempts, ⟨d, hbest, hx⟩ | hnone⟩ := best_of_find hB hbound ht hrun
  · obtain ⟨hgrammar, -⟩ := Engine.eq_of_ofBound he
    rw [← hgrammar] at hstart ⊢
    obtain ⟨hderivation, hfinish⟩ := Engine.traced_of_attempts (Engine.bound_of_ofBound he) hstart
      hattempts hbest.mem
    exact ⟨e, ds, e', hgrammar ▸ he, hattempts, .inl ⟨d, hbest.mem, hderivation, hfinish, hx⟩⟩
  · exact ⟨e, ds, e', he, hattempts, .inr hnone⟩

end

/-- **A search by trials gives the first best of its attempts.** It draws what its number of attempts
draw, one after the other, from the same source and within its bound. Where each attempt succeeds or
reaches the bound, the search gives the text of the first derivation whose score no other exceeds, and
this score; if none succeeded it gives what the kind has for that. Where an attempt meets a nonterminal
without productions, the search fails with the first one that does, and draws no more. -/
theorem find_is_first_best [LawfulSource σ] {B : Nat} (hB : 0 < B) (hbound : f.depthBound = .int B)
    (ht : kind.trials? = some t) :
    ∃ e r f', Engine.ofBound f.grammar (.int (t.factor * B : Nat)) f.source = .ok e ∧
      (find kind).runOn f = (r, f') ∧ Outcome kind t (t.factor * B) e r f'.source := by
  obtain ⟨e, he⟩ := exists_ofBound hB ht f
  rcases hrun : (find kind).runOn f with ⟨r, f'⟩
  exact ⟨e, r, f', he, rfl, outcome_of_find hbound ht he hrun⟩

/-- A finder for repeated letters whose source gives nothing but zeros. -/
def letterFinder : Finder Script where
  grammar := Engine.letters
  depthBound := .int (6 : Nat)
  source := { first := 0, others := [] }

/-- The search for the deepest string of letters gives the first best of ten attempts. -/
theorem letters_first_best :
    0 < 6 ∧ letterFinder.depthBound = .int (6 : Nat) ∧
      ∃ t, ExtremeKind.maxDepth.trials? = some t ∧ ∃ e r f',
        Engine.ofBound letterFinder.grammar (.int (t.factor * 6 : Nat)) letterFinder.source = .ok e ∧
        (find .maxDepth).runOn letterFinder = (r, f') ∧
        Outcome .maxDepth t (t.factor * 6) e r f'.source :=
  ⟨by decide, rfl, _, rfl, find_is_first_best (by decide) rfl rfl⟩

end Finder

end GrammarSuite
