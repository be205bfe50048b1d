import GrammarSuite.Random.Source

/-!
# Scripted sources

Sources whose numbers are laid down beforehand: a script answers from a list of integers, again
and again, and a congruential generator from a linear recurrence. A number is brought into a range
by its remainder. `Recorded` keeps what was drawn from any source.

## Main definitions

* `Script`: a source that repeats a list of numbers
* `Silent`: a source without numbers
* `Congruential`: a linear congruential generator
* `Recorded`: a source with a record of its draws

Of two sources one can be given, as a value of their sum.
-/

namespace GrammarSuite.Random

/-- The number of a range that belongs to an integer: its remainder, counted from `low`. -/
def intoRange (low high : Nat) (v : Int) : Nat := low + (v % ((high - low : Nat) : Int)).toNat

theorem intoRange_mem {low high : Nat} (h : low < high) (v : Int) :
    low ≤ intoRange low high v ∧ intoRange low high v < high := by
  have h₁ : (0 : Int) < ((high - low : Nat) : Int) := by omega
  have h₂ := Int.emod_nonneg v (Int.ne_of_gt h₁)
  have h₃ := Int.emod_lt_of_pos v h₁
  unfold intoRange
  omega

/-- A source that repeats a list of numbers, which is not empty. -/
structure Script where
  first : Int
  others : List Int
  /-- The numbers left before the list starts again. -/
  ahead : List Int := first :: others
  deriving Repr

/-- The next number of a script, and the script after it. -/
def Script.advance (s : Script) : Int × Script :=
  match s.ahead with
  | v :: rest => (v, { s with ahead := rest })
  | [] => (s.first, { s with ahead := s.others })

instance : Source Script where
  next low high s :=
    let (v, s') := s.advance
    (intoRange low high v, s')

instance : LawfulSource Script where
  ready_eq_true _ := rfl
  next_mem s h := intoRange_mem h s.advance.1

/-- A source without numbers. -/
structure Silent where
  deriving Repr

instance : Source Silent where
  ready _ := false
  next low _ s := (low, s)

/-- A linear congruential generator of 64 bits; a draw uses the upper 31. -/
structure Congruential where
  state : UInt64
  deriving Repr

/-- The generator that starts at an integer, taken modulo the word size. -/
def Congruential.ofInt (n : Int) : Congruential := ⟨UInt64.ofInt n⟩

/-- The state after the next step of the recurrence. -/
def Congruential.advance (g : Congruential) : Congruential :=
  ⟨g.state * 6364136223846793005 + 1442695040888963407⟩

instance : Source Congruential where
  next low high g :=
    let g' := g.advance
    (intoRange low high ((g'.state >>> 33).toNat : Int), g')

instance : LawfulSource Congruential where
  ready_eq_true _ := rfl
  next_mem g h := intoRange_mem h ((g.advance.state >>> 33).toNat : Int)

instance {σ τ : Type} [Source σ] [Source τ] : Source (σ ⊕ τ) where
  ready
    | .inl s => Source.ready s
    | .inr t => Source.ready t
  next low high
    | .inl s => let (n, s) := Source.next low high s; (n, .inl s)
    | .inr t => let (n, t) := Source.next low high t; (n, .inr t)

instance {σ τ : Type} [Source σ] [Source τ] [LawfulSource σ] [LawfulSource τ] :
    LawfulSource (σ ⊕ τ) where
  ready_eq_true s := by
    cases s with
    | inl s => exact LawfulSource.ready_eq_true s
    | inr t => exact LawfulSource.ready_eq_true t
  next_mem s h := by
    cases s with
    | inl s => exact LawfulSource.next_mem s h
    | inr t => exact LawfulSource.next_mem t h

/-- One draw: its range and its number. -/
structure DrawRecord where
  low : Nat
  high : Nat
  number : Nat
  deriving DecidableEq, Repr

/-- A source with a record of its draws, the last one first. -/
structure Recorded (σ : Type) where
  source : σ
  record : List DrawRecord := []
  count : Nat := 0

instance {σ : Type} [Source σ] : Source (Recorded σ) where
  ready r := Source.ready r.source
  next low high r :=
    let (n, s') := Source.next low high r.source
    (n, { source := s', record := ⟨low, high, n⟩ :: r.record, count := r.count + 1 })

instance {σ : Type} [Source σ] [LawfulSource σ] : LawfulSource (Recorded σ) where
  ready_eq_true r := LawfulSource.ready_eq_true r.source
  next_mem r h := LawfulSource.next_mem r.source h

end GrammarSuite.Random
