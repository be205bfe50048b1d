import Mathlib.Data.List.Infix
import GrammarSuite.Proofs.Action
import GrammarSuite.Proofs.Derivation.Engine

/-!
# Attempts at derivations

An attempt takes the bound as an answer, so that it fails only where the grammar lacks productions.
Attempts that are made one after the other do not look ahead: fewer of them give the first ones, and
trying until one succeeds gives the first success among them. None of this depends on what an engine
remembers and records.

## Main definitions

* `Grammar.IsLack`: the failure that a declared nonterminal has no productions
* `Engine.SameDraws`: two engines with the same grammar, bound and source

## Main results

* `Engine.derive_failsOnly`, `Engine.attempts_failsOnly`, `Engine.best_failsOnly`: how deriving
  fails
* `Engine.attempts_take`: fewer attempts give the first ones
* `Engine.exists_derive_of_attempts`, `Engine.traced_of_attempts`: what attempts give
* `Engine.firstOf_of_attempts`: the first success among attempts
* `Engine.derivations_eq_ok_iff`: what remains of a number of attempts
* `Engine.best_alike`: the best of a number of attempts depends on what is drawn only
-/

namespace GrammarSuite

open GrammarSuite.Action GrammarSuite.Random

/-- The failure that a declared nonterminal of a grammar has no productions. -/
def Grammar.IsLack (g : Grammar) (f : Failure) : Prop :=
  ∃ n, f = .noProductions (.nonterminal n) ∧ .nonterminal n ∈ g.nonterminals ∧
    g.productionsFor (.nonterminal n) = []

/-- A form of declared nonterminals remains one when the body of a production replaces a
nonterminal. -/
theorem Grammar.mem_nonterminals_of_replace {g : Grammar} {p : Production} {before after : Form}
    {head : String} (hp : p ∈ g.productions)
    (hform : ∀ n, .nonterminal n ∈ before ++ .nonterminal head :: after →
      .nonterminal n ∈ g.nonterminals) :
    ∀ n, .nonterminal n ∈ before ++ p.body ++ after → .nonterminal n ∈ g.nonterminals := by
  intro n hn
  simp only [List.mem_append] at hn hform
  rcases hn with (hn | hn) | hn
  · exact hform n (.inl hn)
  · exact (g.declared p hp).2 _ hn
  · exact hform n (.inr (List.mem_cons_of_mem _ hn))

namespace Engine

variable {σ : Type} [Source σ]

/-! ## How deriving fails -/

/-- There is a candidate wherever there is a production. -/
theorem candidates_ne_nil {g : Grammar} {whole remaining : Nat} {s : Symbol}
    (h : g.productionsFor s ≠ []) : candidates g whole remaining s ≠ [] := by
  dsimp only [candidates]
  split
  · rename_i hdirect
    exact hdirect.2
  · exact h

section

variable [LawfulSource σ]

/-- A choice fails only where there is nothing to choose from. -/
theorem choose_failsOnly {symbol : Symbol} {productions : List Production} (s : σ) :
    (choose symbol productions).FailsOnly s fun f =>
      f = .noProductions symbol ∧ productions = [] := by
  unfold choose
  split
  · rename_i h
    exact .throw ⟨rfl, List.isEmpty_iff.1 h⟩
  · rename_i h
    have hne : productions ≠ [] := by simpa using h
    have hpick : (pick productions).Returns (id s) fun _ _ => True :=
      (pick_returns hne s).mono fun _ _ _ => trivial
    exact (Returns.within (Q := fun _ _ => True) hpick fun _ _ _ => trivial).failsOnly

/-- Expanding a form of declared nonterminals fails only at the bound, or where the grammar lacks
productions. -/
theorem expandAll_failsOnly {g : Grammar} {b : DepthBound} {remaining : Nat} {form : Form} (s : σ)
    (hform : ∀ n, .nonterminal n ∈ form → .nonterminal n ∈ g.nonterminals) :
    (expandAll g b remaining form).FailsOnly s fun f =>
      (∃ d, f = .depthExceeded d) ∨ g.IsLack f := by
  induction remaining generalizing form s with
  | zero =>
    rw [expandAll]
    rcases form.splitFirst? with _ | ⟨before, head, after⟩
    · exact .pure _
    · exact .throw (.inl ⟨_, rfl⟩)
  | succ left ih =>
    rw [expandAll]
    rcases hsplit : form.splitFirst? with _ | ⟨before, head, after⟩
    · exact .pure _
    · obtain ⟨rfl, -⟩ := Form.splitFirst?_eq_some hsplit
      dsimp only
      refine FailsOnly.bind (fun f t hf => ?_) fun p t hp =>
        FailsOnly.bind (ih t ?_) fun _ _ _ => ?_
      · obtain ⟨rfl, hnil⟩ := choose_failsOnly s f t hf
        exact .inr ⟨head, rfl, hform head (by simp),
          by_contra fun h => candidates_ne_nil h hnil⟩
      · obtain ⟨i, -, -, hi⟩ := choose_eq_ok_iff.1 hp
        obtain ⟨hmem, -⟩ := mem_candidates_iff.1 (List.mem_of_getElem? hi)
        exact Grammar.mem_nonterminals_of_replace hmem hform
      · exact .pure _

theorem start_declared (g : Grammar) :
    ∀ n, .nonterminal n ∈ [g.start] → .nonterminal n ∈ g.nonterminals := by
  intro n hn
  rw [List.mem_singleton.1 hn]
  exact g.start_mem

/-- **A derivation fails only at the bound, or where the grammar lacks productions.** -/
theorem derive_failsOnly (e : Engine σ) :
    derive.FailsOnly e fun f => (∃ d, f = .depthExceeded d) ∨ e.grammar.IsLack f := by
  intro f e' h
  simp only [derive, runOn_ofFunction] at h
  rcases hrun : (expandAll e.grammar e.bound e.bound.limit [e.grammar.start]).runOn e.source with
    ⟨f' | steps, source⟩
  · rw [hrun] at h
    obtain ⟨rfl, -⟩ : f' = f ∧ _ := by simpa using h
    exact expandAll_failsOnly e.source (start_declared e.grammar) _ _ hrun
  · rw [hrun] at h
    simp at h

end

/-- The parts of an engine that no action changes. -/
def setting (e : Engine σ) : Grammar × DepthBound := (e.grammar, e.bound)

omit [Source σ] in
/-- A new engine has the grammar and the source that it was made of. -/
theorem eq_of_ofBound {g : Grammar} {bound : Json.Value} {source : σ} {e : Engine σ}
    (h : ofBound g bound source = .ok e) : e.grammar = g ∧ e.source = source := by
  unfold ofBound at h
  rcases hb : DepthBound.ofValue bound with f | b
  · rw [hb] at h
    cases h
  · rw [hb] at h
    obtain rfl := Except.ok.inj h
    exact ⟨rfl, rfl⟩

omit [Source σ] in
theorem bound_of_ofBound {g : Grammar} {bound : Json.Value} {source : σ} {e : Engine σ}
    (h : ofBound g bound source = .ok e) : DepthBound.ofValue bound = .ok e.bound := by
  obtain ⟨b, hb, rfl⟩ := map_eq_ok_iff.1 h
  exact hb

theorem derive_keeps : (derive (σ := σ)).Keeps setting := by
  intro e
  simp only [derive, runOn_ofFunction]
  rcases (expandAll e.grammar e.bound e.bound.limit [e.grammar.start]).runOn e.source with
    ⟨f | steps, source⟩ <;> rfl

theorem attempt_keeps : (attempt (σ := σ)).Keeps setting := by
  intro e
  have hkept := derive_keeps e
  simp only [attempt, runOn_ofFunction]
  rcases hrun : derive.runOn e with ⟨f | d, e'⟩
  · rw [hrun] at hkept
    cases f <;> exact hkept
  · rw [hrun] at hkept
    exact hkept

/-- An attempt derives what a derivation derives. -/
theorem attempt_eq_ok_some_iff {e e' : Engine σ} {d : Derivation} :
    attempt.runOn e = (.ok (some d), e') ↔ derive.runOn e = (.ok d, e') := by
  simp only [attempt, runOn_ofFunction]
  rcases derive.runOn e with ⟨f | d', e''⟩
  · cases f <;> simp
  · simp

theorem grammar_of_attempt {e e' : Engine σ} {r : Except Failure (Option Derivation)}
    (h : attempt.runOn e = (r, e')) : e'.grammar = e.grammar := by
  have hkept := attempt_keeps e
  rw [h] at hkept
  exact congrArg Prod.fst hkept

section

variable [LawfulSource σ]

/-- An attempt fails only where the grammar lacks productions. -/
theorem attempt_failsOnly (e : Engine σ) : attempt.FailsOnly e e.grammar.IsLack := by
  intro f e' h
  simp only [attempt, runOn_ofFunction] at h
  rcases hrun : derive.runOn e with ⟨f' | d, e''⟩
  · rw [hrun] at h
    rcases derive_failsOnly e f' e'' hrun with ⟨d, rfl⟩ | hlack
    · simp at h
    · obtain ⟨n, rfl, hn⟩ := hlack
      obtain ⟨rfl, -⟩ : Failure.noProductions (.nonterminal n) = f ∧ _ := by simpa using h
      exact ⟨n, rfl, hn⟩
  · rw [hrun] at h
    simp at h

/-- **Attempts fail only where the grammar lacks productions.** -/
theorem attempts_failsOnly (n : Nat) (e : Engine σ) :
    (attempts n).FailsOnly e e.grammar.IsLack := by
  induction n generalizing e with
  | zero => exact .pure _
  | succ n ih =>
    refine (attempt_failsOnly e).bind fun d e' h => ?_
    rw [← grammar_of_attempt h]
    exact (ih e').bind fun _ _ _ => .pure _

theorem best_failsOnly (score : Derivation → Nat) (n : Nat) (found : Option (Derivation × Nat))
    (e : Engine σ) : (best score n found).FailsOnly e e.grammar.IsLack := by
  induction n generalizing e found with
  | zero => exact .pure _
  | succ n ih =>
    refine (attempt_failsOnly e).bind fun d e' h => ?_
    rw [← grammar_of_attempt h]
    cases d with
    | none => exact ih found e'
    | some d => exact ih _ e'

end

/-! ## Attempts one after the other -/

/-- Attempts are the first one and the others after it. -/
theorem attempts_succ_eq_ok_iff {n : Nat} {e e' : Engine σ} {ds : List (Option Derivation)} :
    (attempts (n + 1)).runOn e = (.ok ds, e') ↔
      ∃ d e₁ rest, attempt.runOn e = (.ok d, e₁) ∧ (attempts n).runOn e₁ = (.ok rest, e') ∧
        ds = d :: rest := by
  simp only [attempts, runOn_bind_eq_ok, runOn_pure, Prod.mk.injEq, Except.ok.injEq]
  constructor
  · rintro ⟨d, e₁, hd, rest, _, hrest, rfl, rfl⟩
    exact ⟨d, e₁, rest, hd, hrest, rfl⟩
  · rintro ⟨d, e₁, rest, hd, hrest, rfl⟩
    exact ⟨d, e₁, hd, rest, e', hrest, rfl, rfl⟩

theorem attempts_zero_eq_ok_iff {e e' : Engine σ} {ds : List (Option Derivation)} :
    (attempts 0).runOn e = (.ok ds, e') ↔ ds = [] ∧ e' = e := by
  simp [attempts, eq_comm]

/-- There is an outcome for each attempt. -/
theorem attempts_length {n : Nat} {e e' : Engine σ} {ds : List (Option Derivation)}
    (h : (attempts n).runOn e = (.ok ds, e')) : ds.length = n := by
  induction n generalizing e ds with
  | zero =>
    obtain ⟨rfl, -⟩ := attempts_zero_eq_ok_iff.1 h
    rfl
  | succ n ih =>
    obtain ⟨d, e₁, rest, -, hrest, rfl⟩ := attempts_succ_eq_ok_iff.1 h
    rw [List.length_cons, ih hrest]

/-- **Fewer attempts give the first ones.** -/
theorem attempts_take {m n : Nat} (hm : m ≤ n) {e e' : Engine σ} {ds : List (Option Derivation)}
    (h : (attempts n).runOn e = (.ok ds, e')) :
    ∃ e'', (attempts m).runOn e = (.ok (ds.take m), e'') := by
  induction m generalizing n e ds with
  | zero => exact ⟨e, rfl⟩
  | succ m ih =>
    obtain ⟨n, rfl⟩ : ∃ k, n = k + 1 := ⟨n - 1, by omega⟩
    obtain ⟨d, e₁, rest, hd, hrest, rfl⟩ := attempts_succ_eq_ok_iff.1 h
    obtain ⟨e₂, hfewer⟩ := ih (by omega) hrest
    exact ⟨e₂, attempts_succ_eq_ok_iff.2 ⟨d, e₁, _, hd, hfewer, rfl⟩⟩

/-- What remains of fewer attempts comes first in what remains of more of them. -/
theorem reduceOption_attempts_isPrefix {m n : Nat} (hm : m ≤ n) {e e₁ e₂ : Engine σ}
    {few many : List (Option Derivation)} (hfew : (attempts m).runOn e = (.ok few, e₁))
    (hmany : (attempts n).runOn e = (.ok many, e₂)) : few.reduceOption <+: many.reduceOption := by
  obtain ⟨e₃, htake⟩ := attempts_take hm hmany
  rw [hfew] at htake
  obtain rfl : few = many.take m := Except.ok.inj (Prod.mk.inj htake).1
  exact (List.take_prefix m many).reduceOption

/-- What attempts give was derived by an engine with the same grammar and bound. -/
theorem exists_derive_of_attempts {n : Nat} {e e' : Engine σ} {ds : List (Option Derivation)}
    (h : (attempts n).runOn e = (.ok ds, e')) {d : Derivation} (hd : some d ∈ ds) :
    ∃ e₁ e₂ : Engine σ, e₁.setting = e.setting ∧ derive.runOn e₁ = (.ok d, e₂) := by
  induction n generalizing e ds with
  | zero =>
    obtain ⟨rfl, -⟩ := attempts_zero_eq_ok_iff.1 h
    cases hd
  | succ n ih =>
    obtain ⟨first, e₁, rest, hfirst, hrest, rfl⟩ := attempts_succ_eq_ok_iff.1 h
    rcases List.mem_cons.1 hd with rfl | hd
    · exact ⟨e, e₁, rfl, attempt_eq_ok_some_iff.1 hfirst⟩
    · obtain ⟨e₂, e₃, hsetting, hderive⟩ := ih hrest hd
      have hkept := attempt_keeps e
      rw [hfirst] at hkept
      exact ⟨e₂, e₃, hsetting.trans hkept, hderive⟩

/-- What attempts give ends with a terminal form of the grammar. -/
theorem completes_of_attempts {n : Nat} {e e' : Engine σ} {ds : List (Option Derivation)}
    (h : (attempts n).runOn e = (.ok ds, e')) {d : Derivation} (hd : some d ∈ ds) :
    e.grammar.Completes d := by
  obtain ⟨e₁, e₂, hsetting, hderive⟩ := exists_derive_of_attempts h hd
  rw [← (Prod.mk.inj hsetting).1]
  exact completes_of_derive hderive

/-- What attempts give is generated by the grammar. -/
theorem generates_of_attempts {n : Nat} {e e' : Engine σ} {ds : List (Option Derivation)}
    (h : (attempts n).runOn e = (.ok ds, e')) {d : Derivation} (hd : some d ∈ ds) :
    e.grammar.Generates d.text := (completes_of_attempts h hd).generates

/-- What attempts give is a derivation of the grammar within the bound, with the text of its trace. -/
theorem traced_of_attempts {n D : Nat} {e e' : Engine σ} {ds : List (Option Derivation)}
    (hD : DepthBound.ofValue (.int D) = .ok e.bound)
    (hstart : e.grammar.start.isNonterminal = true) (h : (attempts n).runOn e = (.ok ds, e'))
    {d : Derivation} (hd : some d ∈ ds) :
    e.grammar.IsDerivation D d.steps ∧ d = finish d.steps := by
  obtain ⟨e₁, e₂, hsetting, hderive⟩ := exists_derive_of_attempts h hd
  obtain ⟨hgrammar, hbound⟩ := Prod.mk.inj hsetting
  rw [← hgrammar] at hstart ⊢
  exact traced_of_derive (hbound ▸ hD) hstart hderive

/-- **Trying until one attempt succeeds gives the first success** among as many attempts, or fewer
if one of them succeeds. -/
theorem firstOf_of_attempts {m n total : Nat} (hm : m ≤ n) {e e' : Engine σ}
    {ds : List (Option Derivation)} {d : Derivation} {rest : List Derivation}
    (h : (attempts m).runOn e = (.ok ds, e')) (hds : ds.reduceOption = d :: rest) :
    ((firstOf total n).runOn e).1 = .ok d := by
  induction m generalizing n e ds with
  | zero =>
    obtain ⟨rfl, -⟩ := attempts_zero_eq_ok_iff.1 h
    cases hds
  | succ m ih =>
    obtain ⟨n, rfl⟩ : ∃ k, n = k + 1 := ⟨n - 1, by omega⟩
    obtain ⟨first, e₁, others, hfirst, hothers, rfl⟩ := attempts_succ_eq_ok_iff.1 h
    rw [firstOf, runOn_bind, hfirst]
    cases first with
    | none => exact ih (by omega) hothers hds
    | some d' =>
      obtain ⟨rfl, -⟩ : d' = d ∧ others.reduceOption = rest := List.cons.inj hds
      rfl

/-- **What remains of a number of attempts** are the derivations among them; the record that is made
of the others changes nothing. -/
theorem derivations_eq_ok_iff {count : Json.Value} {e : Engine σ} {ds : List Derivation} :
    ((derivations count).runOn e).1 = .ok ds ↔
      ∃ n attempted, count.whole = .ok n ∧ ((attempts n.toNat).runOn e).1 = .ok attempted ∧
        ds = attempted.reduceOption := by
  rw [derivations]
  rcases hcount : count.whole with m | n
  · simp [Failure.required]
  · rcases hrun : (attempts n.toNat).runOn e with ⟨f | attempted, e'⟩
    · simp [Failure.required, runOn_bind, hrun]
    · -- With or without the record, the derivations are the same.
      simp only [Failure.required, pure_bind, runOn_bind, hrun, Except.ok.injEq, ↓existsAndEq,
        true_and]
      split <;> simp [Except.map, eq_comm]

/-- **Derivations fail only where the grammar lacks productions.** -/
theorem derivations_failsOnly [LawfulSource σ] (n : Int) (e : Engine σ) :
    (derivations (.int n)).FailsOnly e e.grammar.IsLack := by
  refine FailsOnly.bind (.pure n) fun m t h => ?_
  obtain ⟨rfl, rfl⟩ : n = m ∧ e = t := by simpa [Failure.required, Json.Value.whole] using h
  refine (attempts_failsOnly n.toNat e).bind fun attempted e' _ => ?_
  dsimp only
  split
  · exact FailsOnly.bind (fun f t h => by cases h) fun _ _ _ => .pure _
  · exact .pure _

/-! ## What is drawn decides -/

/-- Two engines with the same grammar, bound and source. -/
def SameDraws (e e' : Engine σ) : Prop :=
  e.grammar = e'.grammar ∧ e.bound = e'.bound ∧ e.source = e'.source

theorem derive_alike : Alike SameDraws (derive (σ := σ)) derive := by
  rintro e e' ⟨hgrammar, hbound, hsource⟩
  simp only [derive, runOn_ofFunction, hgrammar, hbound, hsource]
  rcases (expandAll e'.grammar e'.bound e'.bound.limit [e'.grammar.start]).runOn e'.source with
    ⟨f | steps, source⟩ <;> exact ⟨rfl, rfl, rfl, rfl⟩

theorem attempt_alike : Alike SameDraws (attempt (σ := σ)) attempt := by
  intro e e' h
  obtain ⟨hout, hsame⟩ := derive_alike e e' h
  simp only [attempt, runOn_ofFunction]
  rcases he : derive.runOn e with ⟨f | d, e₁⟩ <;>
    rcases he' : derive.runOn e' with ⟨f' | d', e₁'⟩ <;> rw [he, he'] at hout hsame
  · obtain rfl := Except.error.inj hout
    cases f <;> exact ⟨rfl, hsame⟩
  · cases hout
  · cases hout
  · obtain rfl := Except.ok.inj hout
    exact ⟨rfl, hsame⟩

theorem best_alike (score : Derivation → Nat) (n : Nat) (found : Option (Derivation × Nat)) :
    Alike SameDraws (best (σ := σ) score n found) (best score n found) := by
  induction n generalizing found with
  | zero => exact .pure _
  | succ n ih =>
    refine attempt_alike.bind fun d => ?_
    cases d with
    | none => exact ih found
    | some d => exact ih _

end Engine

end GrammarSuite
