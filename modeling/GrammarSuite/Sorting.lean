import GrammarSuite.Sorting.Merge
import GrammarSuite.Sorting.Run

/-!
# Stable sorting

Sorting by a comparison that may fail. Which comparisons are made, and in which order, decides which
failure is met first, and so it is fixed here. The values are taken in runs from the front. Before a
run is kept, earlier runs are merged as long as the border between them lies deeper than the border
to the new run, in a tree over the whole list whose halves have halves themselves. What is left in
the end is merged from the back.

## Main definitions

* `Sorting.depth`: how deep the border between two runs lies
* `Sorting.Stack`: the runs that are kept, and the patience of merging
* `Sorting.collect`: takes the values in runs, and merges some of them
* `Sorting.sort`: the values of a list in order

## Main statements

* `sort_perm`: no value is lost or made up
-/

namespace GrammarSuite.Sorting

variable {α ε : Type}

/-- A run that is kept: where it starts, its values, and how deep the border behind it lies. -/
structure Kept (α : Type) where
  start : Nat
  values : List α
  border : Nat := 0

/-- The runs that are kept, the last one first, and the patience of merging. -/
structure Stack (α : Type) where
  runs : List (Kept α) := []
  patience : Nat := Merging.worth

/-- How deep the border between two runs lies: the first binary place at which the middles of the
two runs, as parts of the length, are not the same. Twice the middles are given. -/
def depth (length : Nat) : Nat → Nat → Nat → Nat
  | 0, _, _ => 0
  | places + 1, a, b =>
    if length ≤ a then depth length places (2 * (a - length)) (2 * (b - length)) + 1
    else if length ≤ b then 1
    else depth length places (2 * a) (2 * b) + 1

/-- The depth of the border behind a run, to a run of a length, in a list of a length. -/
def Kept.depthTo (k : Kept α) (next length : Nat) : Nat :=
  let middle := 2 * k.start + k.values.length
  depth length length middle (middle + k.values.length + next)

/-- Merges a run with the one before it. -/
def joined (less : α → α → Except ε Bool) (patience : Nat) (before after : Kept α) :
    Except ε (Kept α × Nat) := do
  let (values, patience) ← merge less patience before.values after.values
  pure ({ before with values }, patience)

/-- Merges runs as long as the border between the last two lies deeper than a depth. -/
def settle (less : α → α → Except ε Bool) (depth patience : Nat) :
    Kept α → List (Kept α) → Except ε (Stack α)
  | last, [] => .ok ⟨[last], patience⟩
  | last, before :: rest => do
    if depth < before.border then
      let (run, patience) ← joined less patience before last
      settle less depth patience run rest
    else pure ⟨last :: before :: rest, patience⟩

/-- Keeps a run, in a list of a length. -/
def keep (less : α → α → Except ε Bool) (length : Nat) (stack : Stack α) (run : Kept α) :
    Except ε (Stack α) :=
  match stack.runs with
  | [] => .ok { stack with runs := [run] }
  | last :: rest => do
    let border := last.depthTo run.values.length length
    let stack ← settle less border stack.patience last rest
    match stack.runs with
    | [] => pure { stack with runs := [run] }
    | last :: rest => pure { stack with runs := run :: { last with border } :: rest }

/-- Takes the values from a position on in runs, in a number of rounds that is enough. -/
def collect (less : α → α → Except ε Bool) (length : Nat) :
    Nat → Nat → Stack α → List α → Except ε (Stack α)
  | 0, _, stack, _ => .ok stack
  | rounds + 1, start, stack, xs =>
    if xs.isEmpty then .ok stack
    else do
      let (values, rest) ← firstRun less (leastRun length false) xs
      let stack ← keep less length stack { start, values }
      collect less length rounds (start + values.length) stack rest

/-- Merges the runs that are left, in a number of rounds that is enough: the last two, unless the
one before them is shorter than the last one. -/
def conclude (less : α → α → Except ε Bool) :
    Nat → Nat → List (Kept α) → Except ε (List α)
  | _, _, [] => .ok []
  | _, _, [run] => .ok run.values
  | 0, _, runs => .ok (runs.reverse.flatMap Kept.values)
  | rounds + 1, patience, c :: b :: rest =>
    match rest with
    | a :: rest' => do
      if a.values.length < c.values.length then
        let (run, patience) ← joined less patience a b
        conclude less rounds patience (c :: run :: rest')
      else
        let (run, patience) ← joined less patience b c
        conclude less rounds patience (run :: rest)
    | [] => do
      let (run, patience) ← joined less patience b c
      conclude less rounds patience [run]

/-- The values of a list in order; equal ones stay in theirs. -/
def sort (less : α → α → Except ε Bool) (xs : List α) : Except ε (List α) := do
  let stack ← collect less xs.length xs.length 0 {} xs
  conclude less stack.runs.length stack.patience stack.runs

/-! ## No value is lost or made up -/

/-- The values of runs, the last one of which stands first. -/
def valuesOf (runs : List (Kept α)) : List α := runs.reverse.flatMap Kept.values

theorem valuesOf_cons (run : Kept α) (runs : List (Kept α)) :
    valuesOf (run :: runs) = valuesOf runs ++ run.values := by
  simp [valuesOf]

theorem joined_perm {less : α → α → Except ε Bool} {patience k : Nat} {before after run : Kept α}
    (h : joined less patience before after = .ok (run, k)) :
    run.values.Perm (before.values ++ after.values) := by
  obtain ⟨⟨values, p⟩, hm, h⟩ := bind_eq_ok h
  cases h
  exact merge_perm hm

/-- Two runs side by side may be joined. -/
theorem valuesOf_joined {less : α → α → Except ε Bool} {patience k : Nat}
    {before after run : Kept α} (h : joined less patience before after = .ok (run, k))
    (runs : List (Kept α)) :
    (valuesOf (run :: runs)).Perm (valuesOf (after :: before :: runs)) := by
  simp only [valuesOf_cons, List.append_assoc]
  exact (joined_perm h).append_left _

theorem settle_perm {less : α → α → Except ε Bool} {depth patience : Nat} {last : Kept α}
    {rest : List (Kept α)} {stack : Stack α}
    (h : settle less depth patience last rest = .ok stack) :
    (valuesOf stack.runs).Perm (valuesOf (last :: rest)) := by
  induction rest generalizing last patience with
  | nil => cases h; exact List.Perm.refl _
  | cons before rest ih =>
    rw [settle] at h
    split at h
    · obtain ⟨⟨run, p⟩, hj, h⟩ := bind_eq_ok h
      exact (ih h).trans (valuesOf_joined hj rest)
    · cases h; exact List.Perm.refl _

theorem keep_perm {less : α → α → Except ε Bool} {length : Nat} {stack stack' : Stack α}
    {run : Kept α} (h : keep less length stack run = .ok stack') :
    (valuesOf stack'.runs).Perm (valuesOf stack.runs ++ run.values) := by
  unfold keep at h
  split at h
  next hs => cases h; simp [valuesOf, hs]
  next last rest hs =>
    obtain ⟨settled, hp, h⟩ := bind_eq_ok h
    have hp := settle_perm hp
    rw [← hs] at hp
    split at h
    next hn =>
      cases h
      rw [hn] at hp
      exact (valuesOf_cons run []).symm ▸ hp.append_right _
    next l r hn =>
      cases h
      rw [hn] at hp
      rw [valuesOf_cons]
      simpa [valuesOf_cons] using hp.append_right run.values

theorem collect_perm {less : α → α → Except ε Bool} {length rounds start : Nat}
    {stack stack' : Stack α} {xs : List α}
    (h : collect less length rounds start stack xs = .ok stack')
    (hx : xs.length ≤ rounds) : (valuesOf stack'.runs).Perm (valuesOf stack.runs ++ xs) := by
  induction rounds generalizing start stack xs with
  | zero =>
    cases h
    simp_all
  | succ rounds ih =>
    rw [collect] at h
    split at h
    next he => cases h; simp_all
    next he =>
      cases xs with
      | nil => simp at he
      | cons x xs =>
        obtain ⟨⟨values, rest⟩, hf, h⟩ := bind_eq_ok h
        obtain ⟨later, hk, h⟩ := bind_eq_ok h
        have hl := firstRun_length hf
        rw [List.length_cons] at hx
        refine (ih h (by omega)).trans (((keep_perm hk).append_right rest).trans ?_)
        rw [List.append_assoc]
        exact (firstRun_perm hf).append_left _

theorem conclude_perm {less : α → α → Except ε Bool} {rounds patience : Nat}
    {runs : List (Kept α)} {result : List α} (h : conclude less rounds patience runs = .ok result) :
    result.Perm (valuesOf runs) := by
  induction rounds generalizing patience runs with
  | zero =>
    match runs, h with
    | [], h => cases h; exact List.Perm.refl _
    | [run], h => cases h; simp [valuesOf]
    | _ :: _ :: _, h => cases h; exact List.Perm.refl _
  | succ rounds ih =>
    match runs, h with
    | [], h => cases h; exact List.Perm.refl _
    | [run], h => cases h; simp [valuesOf]
    | [c, b], h =>
      obtain ⟨⟨run, p⟩, hj, h⟩ := bind_eq_ok h
      exact (ih h).trans (valuesOf_joined hj [])
    | c :: b :: a :: rest, h =>
      simp only [conclude] at h
      split at h
      · obtain ⟨⟨run, p⟩, hj, h⟩ := bind_eq_ok h
        refine (ih h).trans ?_
        rw [valuesOf_cons, valuesOf_cons c]
        exact (valuesOf_joined hj rest).append_right _
      · obtain ⟨⟨run, p⟩, hj, h⟩ := bind_eq_ok h
        exact (ih h).trans (valuesOf_joined hj (a :: rest))

/-- Sorting keeps the values. -/
theorem sort_perm {less : α → α → Except ε Bool} {xs result : List α}
    (h : sort less xs = .ok result) : result.Perm xs := by
  obtain ⟨stack, hc, h⟩ := bind_eq_ok h
  exact (conclude_perm h).trans (collect_perm hc (Nat.le_refl _))

end GrammarSuite.Sorting
