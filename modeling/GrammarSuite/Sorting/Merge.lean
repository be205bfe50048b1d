import GrammarSuite.Sorting.Search

/-!
# Merging

Two runs are merged from their fronts, or from their ends if the second one is the shorter one. At
first the values of the two runs are compared one by one. Where one of the runs wins often enough in
a row, the merging goes on in leaps: the values of a run that come before the next one of the other
run are found by a search and taken together, as long as that takes many of them. How often is often
enough, the patience, falls while leaps are worth it, and rises when they are not.

## Main definitions

* `Merging`: two runs of which some values have their place
* `Merging.race`, `Merging.sprint`: values taken one by one, and in leaps
* `Merging.run`: the two runs as one
* `Sorting.merge`: two runs that follow each other as one

## Main statements

* `merge_perm`: the merged run holds the values of both
-/

namespace GrammarSuite.Sorting

variable {α ε : Type}

/-- Two runs that are being merged. -/
structure Merging (α : Type) where
  /-- The values that have their place, the last one first. -/
  placed : List α := []
  /-- What is left of the run that is not the longer one. -/
  short : List α
  /-- What is left of the other run. -/
  long : List α

namespace Merging

/-- All values of the runs. -/
def all (m : Merging α) : List α := m.placed.reverse ++ (m.short ++ m.long)

/-- The values without a place yet, if their order is known. The last value of the shorter run comes
behind the other run. -/
def rest? (m : Merging α) : Option (List α) :=
  match m.short, m.long with
  | [], long => some long
  | short, [] => some short
  | [v], long => some (long ++ [v])
  | _, _ => none

/-- Whether the order of all values is known. -/
def isDone (m : Merging α) : Bool := m.rest?.isSome

/-- Takes some values of the shorter run. -/
def takeShort (n : Nat) (m : Merging α) : Merging α where
  placed := (m.short.take n).reverse ++ m.placed
  short := m.short.drop n
  long := m.long

/-- Takes some values of the longer run. -/
def takeLong (n : Nat) (m : Merging α) : Merging α where
  placed := (m.long.take n).reverse ++ m.placed
  short := m.short
  long := m.long.drop n

/-- The number of values that make a leap worth it. -/
def worth : Nat := 7

/-- Takes values one by one until a run has won as often in a row as the patience says, or until the
order is known. It is asked whether a value of the longer run comes before one of the shorter
run. -/
def race (ahead : α → α → Except ε Bool) (patience : Nat) :
    Nat → Nat → Nat → Merging α → Except ε (Merging α)
  | 0, _, _, m => .ok m
  | left + 1, shortWins, longWins, m =>
    match m.isDone, m.short, m.long with
    | false, s :: _, l :: _ => do
      -- A win of one run ends the row of the other one.
      if ← ahead l s then
        if patience ≤ longWins + 1 then pure (m.takeLong 1)
        else race ahead patience left 0 (longWins + 1) (m.takeLong 1)
      else if patience ≤ shortWins + 1 then pure (m.takeShort 1)
      else race ahead patience left (shortWins + 1) 0 (m.takeShort 1)
    | _, _, _ => .ok m

/-- Takes the values of the shorter run that come before the next one of the longer run, and then
that one. Their number is returned. -/
def leapShort (ahead : α → α → Except ε Bool) (first : Bool) (m : Merging α) :
    Except ε (Nat × Merging α) :=
  match m.isDone, m.long with
  | false, l :: _ => do
    let n ← gallop (negated (ahead l)) first m.short
    let m := m.takeShort n
    pure (n, if m.isDone then m else m.takeLong 1)
  | _, _ => .ok (0, m)

/-- Takes the values of the longer run that come before the next one of the shorter run, and then
that one. Their number is returned. -/
def leapLong (ahead : α → α → Except ε Bool) (first : Bool) (m : Merging α) :
    Except ε (Nat × Merging α) :=
  match m.isDone, m.short with
  | false, s :: _ => do
    let n ← gallop (ahead · s) first m.long
    let m := m.takeLong n
    pure (n, if m.isDone then m else m.takeShort 1)
  | _, _ => .ok (0, m)

/-- A leap in one of the runs. -/
def leap (ahead : α → α → Except ε Bool) (first inLong : Bool) (m : Merging α) :
    Except ε (Nat × Merging α) :=
  if inLong then leapLong ahead first m else leapShort ahead first m

/-- A leap in each run: in the shorter one first, or in the longer one first if the flag is set. The
greater number of values is returned. -/
def leaps (ahead : α → α → Except ε Bool) (first : Bool) (m : Merging α) :
    Except ε (Nat × Merging α) := do
  let (a, m) ← leap ahead first first m
  let (b, m) ← leap ahead first (!first) m
  pure (max a b, m)

/-- Takes values in leaps as long as they are worth it. The patience afterwards is returned. -/
def sprint (ahead : α → α → Except ε Bool) (first : Bool) :
    Nat → Nat → Merging α → Except ε (Nat × Merging α)
  | 0, patience, m => .ok (patience, m)
  | left + 1, patience, m => do
    -- Going on lowers the patience each time, and giving up raises it by one.
    let patience := max 1 (patience - 1)
    let (n, m) ← leaps ahead first m
    if m.isDone then pure (patience, m)
    else if worth ≤ n then sprint ahead first left patience m
    else pure (patience + 1, m)

/-- Takes values one by one and then in leaps. The patience afterwards is returned. -/
def round (ahead : α → α → Except ε Bool) (first : Bool) (patience : Nat) (m : Merging α) :
    Except ε (Nat × Merging α) := do
  -- Every step places a value, so that the number of values bounds the loops.
  let left := m.short.length + m.long.length
  let m ← race ahead patience left 0 0 m
  if m.isDone then pure (patience, m) else sprint ahead first left (patience + 1) m

/-- The two runs as one, in a number of rounds that is enough, and the patience afterwards. -/
def finish (ahead : α → α → Except ε Bool) (first : Bool) :
    Nat → Nat → Merging α → Except ε (List α × Nat)
  | 0, patience, m => .ok (m.all, patience)
  | left + 1, patience, m =>
    match m.rest? with
    | some rest => .ok (m.placed.reverse ++ rest, patience)
    | none => do
      let (patience, m) ← round ahead first patience m
      finish ahead first left patience m

/-- Two runs as one, and the patience afterwards. The first value of the longer run is known to come
first. -/
def run (ahead : α → α → Except ε Bool) (first : Bool) (patience : Nat) (short long : List α) :
    Except ε (List α × Nat) :=
  finish ahead first (short.length + long.length) patience (takeLong 1 { short, long })

theorem all_takeShort (n : Nat) (m : Merging α) : (m.takeShort n).all = m.all := by
  simp [all, takeShort, ← List.append_assoc (m.short.take n)]

theorem all_takeLong_perm (n : Nat) (m : Merging α) : (m.takeLong n).all.Perm m.all := by
  have h : (m.long.take n ++ (m.short ++ m.long.drop n)).Perm (m.short ++ m.long) := by
    have := List.perm_append_comm_assoc (m.long.take n) m.short (m.long.drop n)
    rwa [List.take_append_drop] at this
  simpa [all, takeLong] using h.append_left m.placed.reverse

theorem rest?_perm {m : Merging α} {rest : List α} (h : m.rest? = some rest) :
    rest.Perm (m.short ++ m.long) := by
  obtain ⟨placed, short, long⟩ := m
  match short, long, h with
  | [], long, h => cases h; exact List.Perm.refl _
  | s :: short, [], h => cases h; simp
  | [v], l :: long, h => cases h; exact List.perm_append_comm

theorem race_perm {ahead : α → α → Except ε Bool} {patience left shortWins longWins : Nat}
    {m n : Merging α} (h : race ahead patience left shortWins longWins m = .ok n) :
    n.all.Perm m.all := by
  induction left generalizing shortWins longWins m with
  | zero => cases h; exact List.Perm.refl _
  | succ left ih =>
    rw [race] at h
    split at h
    · obtain ⟨b, -, h⟩ := bind_eq_ok h
      cases b with
      | true =>
        have hm := all_takeLong_perm 1 m
        simp only [if_true] at h
        split at h
        · cases h; exact hm
        · exact (ih h).trans hm
      | false =>
        simp only [Bool.false_eq_true, if_false] at h
        split at h
        · cases h; rw [all_takeShort]
        · rw [← all_takeShort 1 m]; exact ih h
    · cases h; exact List.Perm.refl _

theorem leapShort_perm {ahead : α → α → Except ε Bool} {first : Bool} {k : Nat}
    {m n : Merging α} (h : leapShort ahead first m = .ok (k, n)) : n.all.Perm m.all := by
  unfold leapShort at h
  split at h
  · obtain ⟨i, -, h⟩ := bind_eq_ok h
    cases h
    split
    · rw [all_takeShort]
    · rw [← all_takeShort k m]; exact all_takeLong_perm 1 _
  · cases h; exact List.Perm.refl _

theorem leapLong_perm {ahead : α → α → Except ε Bool} {first : Bool} {k : Nat}
    {m n : Merging α} (h : leapLong ahead first m = .ok (k, n)) : n.all.Perm m.all := by
  unfold leapLong at h
  split at h
  · obtain ⟨i, -, h⟩ := bind_eq_ok h
    cases h
    split
    · exact all_takeLong_perm k m
    · rw [all_takeShort]; exact all_takeLong_perm k m
  · cases h; exact List.Perm.refl _

theorem leap_perm {ahead : α → α → Except ε Bool} {first inLong : Bool} {k : Nat}
    {m n : Merging α} (h : leap ahead first inLong m = .ok (k, n)) : n.all.Perm m.all := by
  cases inLong with
  | true => exact leapLong_perm h
  | false => exact leapShort_perm h

theorem leaps_perm {ahead : α → α → Except ε Bool} {first : Bool} {k : Nat} {m n : Merging α}
    (h : leaps ahead first m = .ok (k, n)) : n.all.Perm m.all := by
  obtain ⟨⟨a, m'⟩, ha, h⟩ := bind_eq_ok h
  obtain ⟨⟨b, n'⟩, hb, h⟩ := bind_eq_ok h
  cases h
  exact (leap_perm hb).trans (leap_perm ha)

theorem sprint_perm {ahead : α → α → Except ε Bool} {first : Bool} {left patience k : Nat}
    {m n : Merging α} (h : sprint ahead first left patience m = .ok (k, n)) :
    n.all.Perm m.all := by
  induction left generalizing patience m with
  | zero => cases h; exact List.Perm.refl _
  | succ left ih =>
    obtain ⟨⟨i, m'⟩, hl, h⟩ := bind_eq_ok h
    have hl := leaps_perm hl
    simp only at h
    split at h
    · cases h; exact hl
    · split at h
      · exact (ih h).trans hl
      · cases h; exact hl

theorem round_perm {ahead : α → α → Except ε Bool} {first : Bool} {patience k : Nat}
    {m n : Merging α} (h : round ahead first patience m = .ok (k, n)) : n.all.Perm m.all := by
  obtain ⟨m', hm, h⟩ := bind_eq_ok h
  have hm := race_perm hm
  split at h
  · cases h; exact hm
  · exact (sprint_perm h).trans hm

theorem finish_perm {ahead : α → α → Except ε Bool} {first : Bool} {left patience k : Nat}
    {m : Merging α} {result : List α} (h : finish ahead first left patience m = .ok (result, k)) :
    result.Perm m.all := by
  induction left generalizing patience m with
  | zero => cases h; exact List.Perm.refl _
  | succ left ih =>
    rw [finish] at h
    split at h
    next rest hr => cases h; exact (rest?_perm hr).append_left _
    next =>
      obtain ⟨⟨p, n⟩, hn, h⟩ := bind_eq_ok h
      exact (ih h).trans (round_perm hn)

theorem run_perm {ahead : α → α → Except ε Bool} {first : Bool} {patience k : Nat}
    {short long result : List α} (h : run ahead first patience short long = .ok (result, k)) :
    result.Perm (short ++ long) :=
  (finish_perm h).trans (all_takeLong_perm 1 _)

end Merging

/-- Two runs as one that start and end with values of the other run, and the patience afterwards.
They are merged from their ends if the second one is shorter. -/
def interleaved (less : α → α → Except ε Bool) (patience : Nat) (xs ys : List α) :
    Except ε (List α × Nat) :=
  if ys.isEmpty then .ok (xs, patience)
  else if xs.length ≤ ys.length then Merging.run less false patience xs ys
  else do
    let (turned, patience) ←
      Merging.run (fun a b => less b a) true patience ys.reverse xs.reverse
    pure (turned.reverse, patience)

/-- Two runs that follow each other as one, and the patience afterwards. The values of the first run
that come before all of the second one stay where they are, and so do those of the second one that
come behind all of the first one. -/
def merge (less : α → α → Except ε Bool) (patience : Nat) (xs ys : List α) :
    Except ε (List α × Nat) :=
  match ys with
  | [] => .ok (xs, patience)
  | y :: _ => do
    let front ← gallop (negated (less y)) false xs
    match (xs.drop front).getLast? with
    | none => pure (xs ++ ys, patience)
    | some x => do
      let behind ← gallop (fun v => negated (less v) x) true ys.reverse
      let (merged, patience) ←
        interleaved less patience (xs.drop front) (ys.take (ys.length - behind))
      pure (xs.take front ++ merged ++ ys.drop (ys.length - behind), patience)

theorem interleaved_perm {less : α → α → Except ε Bool} {patience k : Nat}
    {xs ys result : List α} (h : interleaved less patience xs ys = .ok (result, k)) :
    result.Perm (xs ++ ys) := by
  unfold interleaved at h
  split at h
  next he => cases h; simp_all
  next =>
    split at h
    · exact Merging.run_perm h
    · obtain ⟨⟨turned, p⟩, ht, h⟩ := bind_eq_ok h
      cases h
      refine (List.reverse_perm _).trans ((Merging.run_perm ht).trans ?_)
      exact ((List.reverse_perm _).append (List.reverse_perm _)).trans List.perm_append_comm

/-- Two runs as one hold the values of both. -/
theorem merge_perm {less : α → α → Except ε Bool} {patience k : Nat} {xs ys result : List α}
    (h : merge less patience xs ys = .ok (result, k)) : result.Perm (xs ++ ys) := by
  cases ys with
  | nil => cases h; simp
  | cons y ys =>
    obtain ⟨front, -, h⟩ := bind_eq_ok h
    split at h
    · cases h; exact List.Perm.refl _
    · obtain ⟨behind, -, h⟩ := bind_eq_ok h
      obtain ⟨⟨merged, p⟩, hm, h⟩ := bind_eq_ok h
      cases h
      generalize (y :: ys).length - behind = n at hm ⊢
      have := ((interleaved_perm hm).append_left (xs.take front)).append_right ((y :: ys).drop n)
      rwa [← List.append_assoc, List.take_append_drop, List.append_assoc xs,
        List.take_append_drop] at this

end GrammarSuite.Sorting
