import GrammarSuite.Random.Script

/-!
# Replaying draws

A list of draws says which numbers a source gave, and from which ranges. A source answers such a
list if it gives these numbers when it is asked for these ranges, one after the other. Draws whose
numbers lie in their ranges can be laid down in a script, which answers them.

## Main definitions

* `DrawRecord.InRange`: a draw whose number lies in its range
* `Answers`: a source answers a list of draws, from one state to another

## Main results

* `Script.answers`: a script answers draws that lie ahead of it
* `Script.exists_answers`: there is a script of the numbers of draws, which answers them
* `Recorded.answers`: a source with a record notes each answer
-/

namespace GrammarSuite.Random

/-- The number of a draw lies in its range. -/
def DrawRecord.InRange (r : DrawRecord) : Prop := r.low ≤ r.number ∧ r.number < r.high

/-- The number that a script holds for a draw: the distance from the start of the range. -/
def DrawRecord.offset (r : DrawRecord) : Int := ((r.number - r.low : Nat) : Int)

/-- A source answers a list of draws, and goes from one state to another. -/
inductive Answers {σ : Type} [Source σ] : σ → List DrawRecord → σ → Prop
  | nil (s : σ) : Answers s [] s
  | cons {s t u : σ} {r : DrawRecord} {rest : List DrawRecord} (hready : Source.ready s = true)
      (hnext : Source.next r.low r.high s = (r.number, t)) (hrest : Answers t rest u) :
      Answers s (r :: rest) u

/-- A number in a range is brought into the range by its distance from the start. -/
theorem intoRange_offset {r : DrawRecord} (h : r.InRange) :
    intoRange r.low r.high r.offset = r.number := by
  obtain ⟨hlow, hhigh⟩ := h
  have hlt : ((r.number - r.low : Nat) : Int) < ((r.high - r.low : Nat) : Int) := by omega
  unfold intoRange DrawRecord.offset
  rw [Int.emod_eq_of_lt (Int.natCast_nonneg _) hlt, Int.toNat_natCast]
  omega

/-- A script answers the draws whose numbers lie ahead of it, and keeps what lies behind them. -/
theorem Script.answers {draws : List DrawRecord} (h : ∀ r ∈ draws, r.InRange) {s : Script}
    {rest : List Int} (hs : s.ahead = draws.map DrawRecord.offset ++ rest) :
    Answers s draws { s with ahead := rest } := by
  induction draws generalizing s with
  | nil =>
    have hrest : s.ahead = rest := by simpa using hs
    rw [← hrest]
    exact .nil s
  | cons r draws ih =>
    have hr := h r List.mem_cons_self
    have hdraws : ∀ r' ∈ draws, r'.InRange := fun r' hr' => h r' (List.mem_cons_of_mem r hr')
    have hahead : s.ahead = r.offset :: (draws.map DrawRecord.offset ++ rest) := by simpa using hs
    refine .cons (t := { s with ahead := draws.map DrawRecord.offset ++ rest }) rfl ?_
      (ih hdraws rfl)
    simp only [Source.next, Script.advance, hahead]
    rw [intoRange_offset hr]

/-- The numbers of draws from ranges that start at zero make a script that answers the draws. A
script is not empty, so that it holds one number that is not drawn if there are no draws. -/
theorem Script.exists_answers {draws : List DrawRecord}
    (h : ∀ r ∈ draws, r.low = 0 ∧ r.number < r.high) :
    ∃ (first : Nat) (others : List Nat) (s : Script),
      Answers ({ first, others := others.map Int.ofNat } : Script) draws s ∧
      (first :: others).length = max 1 draws.length ∧
      (first :: others).take draws.length = draws.map DrawRecord.number := by
  have hrange : ∀ r ∈ draws, r.InRange := fun r hr => by
    obtain ⟨hlow, hhigh⟩ := h r hr
    exact ⟨by omega, hhigh⟩
  have hoffset : ∀ r ∈ draws, r.offset = Int.ofNat r.number := fun r hr => by
    rw [DrawRecord.offset, (h r hr).1, Nat.sub_zero]
    rfl
  cases draws with
  | nil => exact ⟨0, [], _, .nil _, rfl, rfl⟩
  | cons r draws =>
    let script : Script :=
      { first := (r.number : Nat), others := (draws.map DrawRecord.number).map Int.ofNat }
    have hahead : script.ahead = (r :: draws).map DrawRecord.offset ++ [] := by
      rw [List.append_nil, List.map_congr_left hoffset, List.map_cons]
      simp [script]
    refine ⟨r.number, draws.map DrawRecord.number, _, Script.answers hrange hahead, ?_, ?_⟩
    · simp
    · simp [List.take_of_length_le]

/-- A source with a record answers as the source does, and notes the draws. -/
theorem Recorded.answers {σ : Type} [Source σ] {s t : σ} {draws : List DrawRecord}
    (h : Answers s draws t) (record : List DrawRecord) (count : Nat) :
    Answers (⟨s, record, count⟩ : Recorded σ) draws
      ⟨t, draws.reverse ++ record, count + draws.length⟩ := by
  induction h generalizing record count with
  | nil s => exact .nil _
  | @cons s t u r rest hready hnext hrest ih =>
    -- The last draw comes first in the record, so the draws stand there in reverse.
    have hstep : Source.next r.low r.high (⟨s, record, count⟩ : Recorded σ) =
        (r.number, ⟨t, r :: record, count + 1⟩) := by
      simp only [Source.next] at hnext ⊢
      rw [hnext]
    have hcons := Answers.cons (s := (⟨s, record, count⟩ : Recorded σ)) hready hstep
      (ih (r :: record) (count + 1))
    rw [List.reverse_cons, List.append_assoc, List.singleton_append, List.length_cons,
      Nat.add_comm rest.length, ← Nat.add_assoc]
    exact hcons

end GrammarSuite.Random
