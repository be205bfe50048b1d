import GrammarSuite.Proofs.Derivation.Engine
import GrammarSuite.Proofs.Random.Replay

/-!
# Every leftmost derivation is taken

The converse of soundness: the draws that make an engine take a given derivation are built step by
step, each one the position of the production among the candidates. A script of these numbers makes
the engine return the derivation, with one draw for each step.

## Main results

* `Engine.exists_draws_of_leads`: draws for the steps from a form, good for every source
* `Engine.exists_script_of_leads`: a script for the steps from the start symbol
* `Engine.exists_script_of_isDerivation`: a script for a whole derivation
-/

namespace GrammarSuite.Engine

open GrammarSuite.Random

variable {g : Grammar} {b : DepthBound} {taken remaining : Nat} {form : Form}

/-- For steps that lead to a terminal form there are draws in range, one for each step, that make
expanding take these steps, whatever source answers them. -/
theorem exists_draws_of_leads {steps : List Step} (h : g.Leads b.whole taken form steps)
    (hlength : steps.length ≤ remaining) (hlimit : taken + remaining = b.limit) :
    ∃ draws : List DrawRecord, draws.length = steps.length ∧
      (∀ r ∈ draws, r.low = 0 ∧ r.number < r.high) ∧
      ∀ {σ : Type} [Source σ] {s s' : σ}, Answers s draws s' →
        (expandAll g b remaining form).runOn s = (.ok steps, s') := by
  -- Induction on the steps. The draws are chosen before the source is known.
  induction h generalizing remaining with
  | done hform =>
    refine ⟨[], rfl, by simp, fun {σ} _ {s s'} hanswers => ?_⟩
    cases hanswers with
    | nil => exact expandAll_eq_ok_iff.2 (.inl ⟨Form.splitFirst?_eq_none_iff.2 hform, rfl, rfl⟩)
  | @step taken form step rest hadvances hrest ih =>
    rw [List.length_cons] at hlength
    obtain ⟨left, rfl⟩ : ∃ left, remaining = left + 1 := ⟨remaining - 1, by omega⟩
    obtain ⟨draws, hcount, hrange, hreplay⟩ := ih (show rest.length ≤ left by omega) (by omega)
    obtain ⟨p, hp, hproduction, hexpands, hpermits⟩ := hadvances
    obtain ⟨before, after, hsplit, hnext⟩ := Production.expands_iff.1 hexpands
    have hremaining : b.whole - taken = left + 1 - b.excess := by
      unfold DepthBound.limit at hlimit
      omega
    rw [hremaining] at hpermits
    -- The draw of this step is a position of the production among the candidates.
    obtain ⟨i, hi⟩ := List.getElem?_of_mem (mem_candidates_iff.2 ⟨hp, rfl, hpermits⟩)
    have hlt := (List.getElem?_eq_some_iff.1 hi).1
    refine ⟨⟨0, (candidates g b.whole (left + 1 - b.excess) (.nonterminal p.head)).length, i⟩ ::
      draws, by simp [hcount], ?_, fun {σ} _ {s s'} hanswers => ?_⟩
    · intro r hr
      rcases List.mem_cons.1 hr with rfl | hr
      · exact ⟨rfl, hlt⟩
      · exact hrange r hr
    · cases hanswers with
      | @cons _ t _ _ _ hready hdraw hanswers =>
        refine expandAll_eq_ok_iff.2 (.inr ⟨before, p.head, after, left, p, t, rest, hsplit, rfl,
          choose_eq_ok_iff.2 ⟨i, hready, hdraw, hi⟩, ?_, ?_⟩)
        · rw [← hnext]
          exact hreplay hanswers
        · rw [← hnext, ← hproduction]

/-- For steps from the start symbol within the bound there is a script that makes an engine take
them, with one draw for each step. A script is not empty, so that one number is left where there are
no steps. -/
theorem exists_script_of_leads {D : Nat} {steps : List Step} (hD : 0 < D)
    (h : g.Leads D 0 [g.start] steps) (hlength : steps.length ≤ D) :
    ∃ (first : Nat) (others : List Nat) (e e' : Engine (Recorded Script)) (d : Derivation),
      Engine.ofBound g (.int D) ⟨{ first, others := others.map Int.ofNat }, [], 0⟩ = .ok e ∧
      derive.runOn e = (.ok d, e') ∧ d = finish (⟨[g.start], none⟩ :: steps) ∧
      e'.source.count = steps.length ∧ (first :: others).length = max 1 steps.length ∧
      e'.source.record.reverse.map DrawRecord.number = (first :: others).take steps.length ∧
      ∀ r ∈ e'.source.record, r.low = 0 ∧ r.number < r.high := by
  let b : DepthBound := { given := .int D, whole := D, whole_pos := hD }
  obtain ⟨draws, hcount, hrange, hreplay⟩ := exists_draws_of_leads (b := b) h hlength
    (Nat.zero_add D)
  obtain ⟨first, others, s, hscript, hnumbers, htake⟩ := Script.exists_answers hrange
  rw [hcount] at hnumbers htake
  -- The record of the source shows which numbers were drawn, and from which ranges.
  have hrun := hreplay (Recorded.answers hscript [] 0)
  rw [List.append_nil, Nat.zero_add] at hrun
  refine ⟨first, others, ⟨g, b, ⟨_, [], 0⟩, [], []⟩, _, _, ?_,
    derive_eq_ok_iff.2 ⟨steps, _, hrun, rfl, rfl⟩, rfl, hcount, hnumbers, ?_, ?_⟩
  · simp [Engine.ofBound, DepthBound.ofValue_int hD, Except.map, b]
  · rw [htake, List.reverse_reverse]
  · intro r hr
    exact hrange r (List.mem_reverse.1 hr)

/-- The derivation of two letters. -/
def twoLetters : List Step :=
  [⟨[.nonterminal "S"], none⟩,
    ⟨[.nonterminal "S", .terminal "a"], some ⟨"S", [.nonterminal "S", .terminal "a"]⟩⟩,
    ⟨[.terminal "a", .terminal "a"], some ⟨"S", [.terminal "a"]⟩⟩]

theorem twoLetters_isDerivation : letters.IsDerivation 6 twoLetters := by
  refine Grammar.isDerivation_iff.2 ⟨_, rfl, .step ?_ (.step ?_ (.done rfl)), by simp, by decide⟩
  · refine ⟨⟨"S", [.nonterminal "S", .terminal "a"]⟩, by simp [letters], rfl, ?_, ?_⟩
    · exact ⟨[], [], rfl, rfl, rfl⟩
    · intro hlt
      simp at hlt
  · refine ⟨⟨"S", [.terminal "a"]⟩, by simp [letters], rfl, ?_, fun _ _ => rfl⟩
    exact ⟨[], [.terminal "a"], rfl, rfl, rfl⟩

/-- **Every leftmost derivation within the bound is taken**: there are numbers, one for each step,
each in the range that it is drawn from, for which an engine returns exactly the given trace and
draws no more. -/
theorem exists_script_of_isDerivation {D : Nat} {steps : List Step} (h : g.IsDerivation D steps) :
    ∃ (first : Nat) (others : List Nat) (e e' : Engine (Recorded Script)) (d : Derivation),
      Engine.ofBound g (.int D) ⟨{ first, others := others.map Int.ofNat }, [], 0⟩ = .ok e ∧
      derive.runOn e = (.ok d, e') ∧ d.steps = steps ∧
      e'.source.count = steps.length - 1 ∧ (first :: others).length = steps.length - 1 ∧
      e'.source.record.reverse.map DrawRecord.number = first :: others ∧
      ∀ r ∈ e'.source.record, r.low = 0 ∧ r.number < r.high := by
  obtain ⟨rest, rfl, hleads, hne, hlength⟩ := Grammar.isDerivation_iff.1 h
  have hpos := List.length_pos_iff.2 hne
  obtain ⟨first, others, e, e', d, he, hderive, rfl, hcount, hnumbers, hrecord, hrange⟩ :=
    exists_script_of_leads (by omega) hleads hlength
  rw [Nat.max_eq_right hpos] at hnumbers
  rw [← hnumbers, List.take_length] at hrecord
  exact ⟨first, others, e, e', _, he, hderive, rfl, hcount, hnumbers, hrecord, hrange⟩

/-- The derivation of two letters is taken within six steps, with two draws. -/
theorem exists_script_letters :
    letters.IsDerivation 6 twoLetters ∧
      ∃ (first : Nat) (others : List Nat) (e e' : Engine (Recorded Script)) (d : Derivation),
        Engine.ofBound letters (.int (6 : Nat)) ⟨{ first, others := others.map Int.ofNat }, [], 0⟩ =
          .ok e ∧
        derive.runOn e = (.ok d, e') ∧ d.steps = twoLetters ∧ e'.source.count = 2 ∧
        (first :: others).length = 2 ∧
        e'.source.record.reverse.map DrawRecord.number = first :: others ∧
        ∀ r ∈ e'.source.record, r.low = 0 ∧ r.number < r.high :=
  ⟨twoLetters_isDerivation, exists_script_of_isDerivation twoLetters_isDerivation⟩

end GrammarSuite.Engine
