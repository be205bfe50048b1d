import GrammarSuite.Random.Source

/-!
# Actions that succeed

An action returns on a state if it succeeds there, with a result and a state after it that have a
property. Sequences return if their parts do, one on what the other left; draws from a lawful source
return wherever their ranges and lists are not empty.

## Main definitions

* `Action.Returns`: an action succeeds with a property

## Main results

* `Action.Returns.bind`, `Action.Returns.within`: sequences, and actions on a part of the state
* `Action.Returns.bind_congr`: sequences that differ where their first part does not get
* `Random.draw_returns`, `Random.pick_returns`: draws and picks
-/

namespace GrammarSuite

namespace Action

variable {σ τ ε δ α β : Type} {s : σ}

/-- An action succeeds on a state, and its result and the state after it have a property. -/
def Returns (x : Action σ ε α) (s : σ) (Q : α → σ → Prop) : Prop :=
  ∃ a t, x.runOn s = (.ok a, t) ∧ Q a t

theorem Returns.pure {a : α} {Q : α → σ → Prop} (h : Q a s) :
    Returns (Pure.pure a : Action σ ε α) s Q :=
  ⟨a, s, rfl, h⟩

/-- A sequence returns if its second part does on all that the first one returns. -/
theorem Returns.bind {x : Action σ ε α} {f : α → Action σ ε β} {P : α → σ → Prop}
    {Q : β → σ → Prop} (hx : x.Returns s P) (hf : ∀ a t, P a t → (f a).Returns t Q) :
    (x >>= f).Returns s Q := by
  obtain ⟨a, t, ha, hP⟩ := hx
  obtain ⟨b, u, hb, hQ⟩ := hf a t hP
  exact ⟨b, u, runOn_bind_eq_ok.2 ⟨a, t, ha, hb⟩, hQ⟩

/-- Two sequences with the same first part run alike if their second parts do on all that the first
one returns. -/
theorem Returns.bind_congr {x : Action σ ε α} {f g : α → Action σ ε β} {P : α → σ → Prop}
    (hx : x.Returns s P) (h : ∀ a t, P a t → (f a).runOn t = (g a).runOn t) :
    (x >>= f).runOn s = (x >>= g).runOn s := by
  obtain ⟨a, t, ha, hP⟩ := hx
  rw [runOn_bind, runOn_bind, ha]
  exact h a t hP

/-- An action on a part of the state returns if it does on the part. -/
theorem Returns.within {part : σ → τ} {replace : τ → σ → σ} {wrap : δ → ε} {x : Action τ δ α}
    {P : α → τ → Prop} {Q : α → σ → Prop} (hx : x.Returns (part s) P)
    (h : ∀ a t, P a t → Q a (replace t s)) : (Action.within part replace wrap x).Returns s Q := by
  obtain ⟨a, t, ha, hP⟩ := hx
  exact ⟨a, replace t s, runOn_within_eq_ok.2 ⟨t, ha, rfl⟩, h a t hP⟩

end Action

namespace Random

open GrammarSuite.Action

variable {σ α : Type}

theorem item_returns {items : List α} {i : Nat} {a : α} {s : σ} {Q : α → σ → Prop}
    (h : items[i]? = some a) (hQ : Q a s) : (item items i : Draw σ α).Returns s Q :=
  ⟨a, s, item_eq_ok_iff.2 ⟨h, rfl⟩, hQ⟩

variable [Source σ] [LawfulSource σ]

/-- A draw from a nonempty range returns the next number of the source, which is in the range. -/
theorem draw_returns {low high : Nat} (h : low < high) (s : σ) :
    (draw low high : Draw σ Nat).Returns s fun n t =>
      Source.next low high s = (n, t) ∧ low ≤ n ∧ n < high := by
  obtain ⟨n, t, hdraw, hn⟩ := draw_eq_ok h s
  exact ⟨n, t, hdraw, (draw_eq_ok_iff.1 hdraw).2.2, hn⟩

/-- A pick from a nonempty list returns an item of it. -/
theorem pick_returns {items : List α} (h : items ≠ []) (s : σ) :
    (pick items : Draw σ α).Returns s fun a _ => a ∈ items := by
  obtain ⟨a, t, hpick, ha⟩ := pick_eq_ok h s
  exact ⟨a, t, hpick, ha⟩

end Random

end GrammarSuite
