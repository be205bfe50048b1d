/-!
# Positions by search

How many values at the front of a list a test holds of, where it is taken that it holds of no value
behind one of which it does not hold. Which values are tested, and in which order, is fixed, because
a test may fail.

## Main definitions

* `Sorting.halve`: the position by halving a range
* `Sorting.stride`: a range by steps that grow
* `Sorting.gallop`: the position by steps that grow, and then by halving
-/

namespace GrammarSuite.Sorting

variable {α ε : Type}

/-- The position in a range, found by halving it. A range of even length has two middles, of which
the first one is taken if the flag is set. -/
def halve (test : α → Except ε Bool) (first : Bool) (xs : List α) (low high : Nat) :
    Except ε Nat :=
  if _h : low < high then
    let middle := low + (high - low - first.toNat) / 2
    match xs[middle]? with
    | none => .ok low
    | some x => do
      if ← test x then halve test first xs (middle + 1) high
      else halve test first xs low middle
  else .ok low
termination_by high - low
decreasing_by
  all_goals
    have := Bool.toNat_le first
    omega

/-- The last position up to which the test holds, and the next one that was looked at or that is
behind the list; the steps between them double. -/
def stride (test : α → Except ε Bool) (xs : List α) (last next : Nat) : Except ε (Nat × Nat) :=
  match _h : xs[next]? with
  | none => .ok (last, next)
  | some x => do
    if ← test x then stride test xs next (2 * next + 1) else pure (last, next)
termination_by xs.length - next
decreasing_by
  have := (List.getElem?_eq_some_iff.1 _h).1
  omega

/-- The number of values at the front that a test holds of. -/
def gallop (test : α → Except ε Bool) (first : Bool) (xs : List α) : Except ε Nat :=
  match xs with
  | [] => .ok 0
  | x :: rest => do
    if ← test x then
      let (last, next) ← stride test (x :: rest) 0 1
      halve test first (x :: rest) (last + 1) (min next (rest.length + 1))
    else pure 0

/-- The test that holds where another one does not. -/
def negated (test : α → Except ε Bool) (v : α) : Except ε Bool := (!·) <$> test v

/-- What succeeds behind a first step succeeds on the value of that step. -/
theorem bind_eq_ok {β γ : Type} {x : Except ε β} {f : β → Except ε γ} {c : γ}
    (h : x >>= f = .ok c) : ∃ b, x = .ok b ∧ f b = .ok c := by
  cases x with
  | error e => cases h
  | ok b => exact ⟨b, rfl, h⟩

end GrammarSuite.Sorting
