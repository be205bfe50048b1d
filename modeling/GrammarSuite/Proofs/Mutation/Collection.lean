import GrammarSuite.Proofs.Action
import GrammarSuite.Proofs.Mutation.Invalid

/-!
# Collections of mutations

Mutations are made one after the other, each by a kind that is drawn first. Fewer of them are the
first ones. A text that has tokens is edited as often as is asked for, and every result remembers
it.

## Main results

* `Mutator.collect_isPrefix`: fewer mutations are the first ones
* `Mutator.mutations_eq_ok_iff`: a number of mutations
* `Mutator.collect_returns_of`: what every mutation has, the mutations of a collection have
* `Mutator.mutations_returns`: a text with tokens has as many mutations as are asked for
-/

namespace GrammarSuite.Mutator

open GrammarSuite.Action GrammarSuite.Random

variable {σ : Type} [Source σ]

/-- Collecting is drawing a kind, editing, and collecting what remains. -/
theorem collect_succ_eq_ok_iff {v : Json.Value} {n : Nat} {m m' : Mutator σ} {ms : List Mutation} :
    (collect v (n + 1)).runOn m = (.ok ms, m') ↔
      ∃ kind m₁ mutation m₂ rest, (drawn (pick MutationKind.all)).runOn m = (.ok kind, m₁) ∧
        (mutateValue v kind).runOn m₁ = (.ok mutation, m₂) ∧
        (collect v n).runOn m₂ = (.ok rest, m') ∧ ms = mutation.toList ++ rest := by
  simp only [collect, runOn_bind_eq_ok, runOn_pure, Prod.mk.injEq, Except.ok.injEq]
  constructor
  · rintro ⟨kind, m₁, hkind, mutation, m₂, hmutation, rest, _, hrest, rfl, rfl⟩
    exact ⟨kind, m₁, mutation, m₂, rest, hkind, hmutation, hrest, rfl⟩
  · rintro ⟨kind, m₁, mutation, m₂, rest, hkind, hmutation, hrest, rfl⟩
    exact ⟨kind, m₁, hkind, mutation, m₂, hmutation, rest, m', hrest, rfl, rfl⟩

/-- **Fewer mutations are the first ones.** -/
theorem collect_isPrefix {v : Json.Value} {k n : Nat} (hk : k ≤ n) {m m' : Mutator σ}
    {ms : List Mutation} (h : (collect v n).runOn m = (.ok ms, m')) :
    ∃ fewer m'', (collect v k).runOn m = (.ok fewer, m'') ∧ fewer <+: ms := by
  induction k generalizing n m ms with
  | zero => exact ⟨[], m, rfl, List.nil_prefix⟩
  | succ k ih =>
    obtain ⟨n, rfl⟩ : ∃ j, n = j + 1 := ⟨n - 1, by omega⟩
    obtain ⟨kind, m₁, mutation, m₂, rest, hkind, hmutation, hrest, rfl⟩ :=
      collect_succ_eq_ok_iff.1 h
    obtain ⟨fewer, m₃, hfewer, hprefix⟩ := ih (by omega) hrest
    exact ⟨_, m₃, collect_succ_eq_ok_iff.2 ⟨kind, m₁, mutation, m₂, fewer, hkind, hmutation,
      hfewer, rfl⟩, (List.prefix_append_right_inj mutation.toList).2 hprefix⟩

/-- A number of mutations is a collection; the record of it changes nothing. -/
theorem mutations_eq_ok_iff {v count : Json.Value} {m : Mutator σ} {ms : List Mutation} :
    ((mutations v count).runOn m).1 = .ok ms ↔
      ∃ n, count.whole = .ok n ∧ ((collect v n.toNat).runOn m).1 = .ok ms := by
  rw [mutations]
  rcases count.whole with f | n
  · simp [Failure.required]
  · rcases hrun : (collect v n.toNat).runOn m with ⟨f | found, m'⟩
    · simp [Failure.required, runOn_bind, hrun]
    · simp [Failure.required, runOn_bind, hrun, Except.map]

omit [Source σ] in
theorem drawn_keeps {α : Type} (x : Draw σ α) : (drawn x).Keeps Mutator.identifier :=
  Keeps.within fun _ _ => rfl

theorem mutateValue_keeps (v : Json.Value) (kind : MutationKind) :
    (mutateValue (σ := σ) v kind).Keeps Mutator.identifier := by
  refine (Failure.required_keeps _).bind fun text => ?_
  rw [mutate]
  split
  · exact .pure _
  · refine Keeps.bind (fun _ => rfl) fun m => (Failure.required_keeps _).bind fun _ => ?_
    exact (drawn_keeps _).bind fun _ => .pure _

variable [LawfulSource σ]

theorem drawn_pick_returns {m : Mutator σ} {identifier : String}
    (hidentifier : m.identifier = .text identifier) :
    (drawn (pick MutationKind.all)).Returns m fun _ m' => m'.identifier = .text identifier := by
  unfold drawn
  exact Returns.within (pick_returns (by decide) m.source) fun _ _ _ => hidentifier

/-- Where every mutation of a value gives a result with a property, as many results as are asked for
have the property. -/
theorem collect_returns_of {v : Json.Value} {identifier : String} {P : Mutation → Prop}
    (h : ∀ (kind : MutationKind) (m : Mutator σ), m.identifier = .text identifier →
      (mutateValue v kind).Returns m fun r _ => ∃ x, r = some x ∧ P x) (n : Nat)
    {m : Mutator σ} (hidentifier : m.identifier = .text identifier) :
    (collect v n).Returns m fun ms _ => ms.length = n ∧ ∀ x ∈ ms, P x := by
  induction n generalizing m with
  | zero => exact .pure ⟨rfl, by simp⟩
  | succ n ih =>
    refine (drawn_pick_returns hidentifier).bind fun kind m₁ hm₁ => ?_
    obtain ⟨r, m₂, hr, x, rfl, hx⟩ := h kind m₁ hm₁
    have hm₂ : m₂.identifier = .text identifier := by
      have hkept := mutateValue_keeps v kind m₁
      rw [hr] at hkept
      exact hkept.trans hm₁
    obtain ⟨rest, m₃, hrest, hlength, hall⟩ := ih hm₂
    refine ⟨x :: rest, m₃, runOn_bind_eq_ok.2 ⟨some x, m₂, hr, runOn_bind_eq_ok.2
      ⟨rest, m₃, hrest, rfl⟩⟩, by rw [List.length_cons, hlength], ?_⟩
    exact List.forall_mem_cons.2 ⟨hx, hall⟩

/-- A text with tokens is edited as often as is asked for. -/
theorem collect_returns {text identifier : String} (hne : Token.tokenize text ≠ []) (n : Nat)
    {m : Mutator σ} (hidentifier : m.identifier = .text identifier) :
    (collect (.text text) n).Returns m fun ms _ => ms.length = n ∧ ∀ x ∈ ms, x.unedited = text := by
  refine collect_returns_of (fun kind m hm => ?_) n hidentifier
  refine Returns.mono (mutate_returns hm hne
    (MutationKind.edit_returns identifier hne kind m.source)) ?_
  rintro _ _ ⟨edited, -, rfl⟩
  exact ⟨_, rfl, rfl⟩

/-- **A text with tokens has as many mutations as are asked for**, and each remembers the text. -/
theorem mutations_returns {text identifier : String} (hne : Token.tokenize text ≠ []) {n : Nat}
    {m : Mutator σ} (hidentifier : m.identifier = .text identifier) :
    (mutations (.text text) (.int n)).Returns m fun ms _ =>
      ms.length = n ∧ ∀ x ∈ ms, x.unedited = text := by
  obtain ⟨ms, m', hms, hall⟩ := collect_returns hne n hidentifier
  exact (Returns.of_runOn (mutations_eq_ok_iff.2 ⟨n, rfl, by rw [Int.toNat_natCast, hms]⟩)).mono
    fun _ _ h => h.1 ▸ hall

end GrammarSuite.Mutator
