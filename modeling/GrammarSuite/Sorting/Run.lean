import GrammarSuite.Sorting.Search

/-!
# Runs

The values of a list are taken in runs that are in order already, or in the opposite order without
equal values. A run that is too short is filled up with the values behind it, each at a position
found by halving.

## Main definitions

* `Sorting.insert`: a value put where it belongs
* `Sorting.leastRun`: the least length of a run
* `Sorting.firstRun`: the first run of a list, and the values behind it

## Main statements

* `firstRun_perm`, `firstRun_length`: a run and the rest hold the values of a list, and the rest has
  fewer of them
-/

namespace GrammarSuite.Sorting

variable {α ε : Type}

/-- How many values go on descending behind a value, or go on without descending. -/
def goingOn (less : α → α → Except ε Bool) (descending : Bool) (before : α) :
    List α → Except ε Nat
  | [] => .ok 0
  | v :: rest => do
    if (← less v before) = descending then pure ((← goingOn less descending v rest) + 1)
    else pure 0

/-- Values in order with one more value, behind those that are equal to it. -/
def insert (less : α → α → Except ε Bool) (sorted : List α) (v : α) : Except ε (List α) := do
  let p ← halve (negated (less v)) false sorted 0 sorted.length
  pure (sorted.take p ++ v :: sorted.drop p)

/-- The least length of the runs of a list: its length, halved down to less than 64, and rounded
up if a half was lost on the way. -/
def leastRun (length : Nat) (lost : Bool) : Nat :=
  if 64 ≤ length then leastRun (length / 2) (lost || length % 2 == 1)
  else length + lost.toNat
termination_by length
decreasing_by omega

/-- The first run of a list, in order, and the values behind it. -/
def firstRun (less : α → α → Except ε Bool) (least : Nat) :
    List α → Except ε (List α × List α)
  | [] => .ok ([], [])
  | [v] => .ok ([v], [])
  | v :: w :: rest => do
    let descending ← less w v
    let length := 2 + (← goingOn less descending w rest)
    let start := (v :: w :: rest).take length
    let behind := (v :: w :: rest).drop length
    let run ← (behind.take (least - length)).foldlM (insert less)
      (if descending then start.reverse else start)
    pure (run, behind.drop (least - length))

/-- A value is put among the others, and nothing else changes. -/
theorem insert_perm {less : α → α → Except ε Bool} {sorted result : List α} {v : α}
    (h : insert less sorted v = .ok result) : result.Perm (v :: sorted) := by
  obtain ⟨p, -, hp⟩ := bind_eq_ok h
  cases hp
  exact List.perm_middle.trans (by rw [List.take_append_drop])

/-- Several values are put among the others. -/
theorem foldlM_insert_perm {less : α → α → Except ε Bool} {vs sorted result : List α}
    (h : vs.foldlM (insert less) sorted = .ok result) : result.Perm (sorted ++ vs) := by
  induction vs generalizing sorted with
  | nil => cases h; simp
  | cons v vs ih =>
    obtain ⟨next, hn, hr⟩ := bind_eq_ok h
    have := (insert_perm hn).append_right vs
    exact (ih hr).trans (this.trans List.perm_middle.symm)

/-- The first run and the values behind it are those of the list. -/
theorem firstRun_perm {less : α → α → Except ε Bool} {least : Nat} {xs run rest : List α}
    (h : firstRun less least xs = .ok (run, rest)) : (run ++ rest).Perm xs := by
  match xs, h with
  | [], h => cases h; simp
  | [v], h => cases h; simp
  | v :: w :: tail, h =>
    obtain ⟨descending, -, h⟩ := bind_eq_ok h
    obtain ⟨n, -, h⟩ := bind_eq_ok h
    obtain ⟨filled, hfilled, h⟩ := bind_eq_ok h
    cases h
    have hfilled := foldlM_insert_perm hfilled
    have hstart : (if descending = true then ((v :: w :: tail).take (2 + n)).reverse
        else (v :: w :: tail).take (2 + n)).Perm ((v :: w :: tail).take (2 + n)) := by
      split
      · exact List.reverse_perm _
      · exact List.Perm.refl _
    have := (hfilled.trans (hstart.append_right _)).append_right
      (((v :: w :: tail).drop (2 + n)).drop (least - (2 + n)))
    rwa [List.append_assoc, List.take_append_drop, List.take_append_drop] at this

/-- Behind a run there are fewer values than before. -/
theorem firstRun_length {less : α → α → Except ε Bool} {least : Nat} {x : α}
    {xs run rest : List α} (h : firstRun less least (x :: xs) = .ok (run, rest)) :
    rest.length ≤ xs.length := by
  match xs, h with
  | [], h => cases h; simp
  | w :: tail, h =>
    obtain ⟨descending, -, h⟩ := bind_eq_ok h
    obtain ⟨n, -, h⟩ := bind_eq_ok h
    obtain ⟨filled, -, h⟩ := bind_eq_ok h
    cases h
    simp only [List.length_drop, List.length_cons]
    omega

end GrammarSuite.Sorting
