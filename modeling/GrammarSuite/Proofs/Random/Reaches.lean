import GrammarSuite.Proofs.Random.Replay

/-!
# Results that can be drawn

What an action that draws can give at all: a result is reached if some numbers, laid down in a
script, make the action give it and are used up by it. Sequences reach what their parts reach one
after the other, a draw reaches every number of its range, and a pick every item of its list.

## Main definitions

* `Reaches`: some numbers make an action give a result

## Main results

* `Reaches.bind`: the rule for sequences
* `draw_reaches`, `pick_reaches`: what draws and picks reach
-/

namespace GrammarSuite.Random

variable {ε α β : Type}

/-- Some numbers make an action give a result, and it draws no more than these. -/
def Reaches (x : Action Script ε α) (a : α) : Prop :=
  ∃ numbers : List Int, ∀ (s : Script) (rest : List Int), s.ahead = numbers ++ rest →
    x.runOn s = (.ok a, { s with ahead := rest })

theorem Reaches.pure (a : α) : Reaches (Pure.pure a : Action Script ε α) a :=
  ⟨[], fun s rest hs => by
    obtain rfl : s.ahead = rest := hs
    rfl⟩

/-- The numbers of a sequence are those of its parts, one after the other. -/
theorem Reaches.bind {x : Action Script ε α} {f : α → Action Script ε β} {a : α} {b : β}
    (hx : Reaches x a) (hf : Reaches (f a) b) : Reaches (x >>= f) b := by
  obtain ⟨first, hfirst⟩ := hx
  obtain ⟨second, hsecond⟩ := hf
  refine ⟨first ++ second, fun s rest hs => ?_⟩
  rw [List.append_assoc] at hs
  exact Action.runOn_bind_eq_ok.2 ⟨a, _, hfirst s (second ++ rest) hs, hsecond _ rest rfl⟩

theorem item_reaches {items : List α} {i : Nat} {a : α} (h : items[i]? = some a) :
    Reaches (item items i : Draw Script α) a := by
  rw [item, h]
  exact .pure a

/-- Every number of a range can be drawn. -/
theorem draw_reaches {low high n : Nat} (hlow : low ≤ n) (hhigh : n < high) :
    Reaches (draw low high : Draw Script Nat) n := by
  refine ⟨[DrawRecord.offset ⟨low, high, n⟩], fun s rest hs => ?_⟩
  refine draw_eq_ok_iff.2 ⟨rfl, by omega, ?_⟩
  simp only [Source.next, Script.advance, hs, List.singleton_append]
  exact congrArg (·, _) (intoRange_offset (r := ⟨low, high, n⟩) ⟨hlow, hhigh⟩)

/-- Every item of a list can be picked. -/
theorem pick_reaches {items : List α} {a : α} (h : a ∈ items) :
    Reaches (pick items : Draw Script α) a := by
  obtain ⟨i, hi⟩ := List.getElem?_of_mem h
  have hlt : i < items.length := (List.getElem?_eq_some_iff.1 hi).1
  exact (draw_reaches (Nat.zero_le i) hlt).bind (item_reaches hi)

end GrammarSuite.Random
