import GrammarSuite.Report.Text
import GrammarSuite.Proofs.Case.Labelling
import GrammarSuite.Proofs.Decimal.Zero
import GrammarSuite.Proofs.Sorting
import Mathlib.Data.List.Perm.Basic
import Mathlib.Data.Set.List

/-!
# Ranked counts

The operators and the kinds of a report are the entries of a table of counts, from the greatest
count to the least, and equal counts stay in order. Those that are positive have a line. An operator
has its share of the total, which is a division: as no count exceeds the total, the total is positive
wherever there is a line, and so is its double. A number that is near the greatest double or beyond
it may have no line.

## Main definitions

* `Report.IsPiece`: a piece of a report has a property, unless a number is too large
* `Report.countFields`: a table of counts
* `Report.operatorLine`, `Report.kindLine`: the line of a count

## Main results

* `Report.ranked_countFields`: a short table of counts is ranked
* `Report.share_isPiece`: the total of a share is not zero
* `Report.operatorLines_isPiece`, `Report.kindLines_isPiece`: the lines of the positive counts
-/

namespace GrammarSuite

open Json (Misuse Value)

/-- A number with too many digits to be written is large. -/
theorem Json.Value.finiteBound_le_unwritable : Decimal.finiteBound ≤ unwritable := by
  have hpow : ∀ n k, k ≤ 3 * n → Decimal.twoPow k ≤ Decimal.tenPow n := fun n k hk =>
    calc 2 ^ k ≤ 2 ^ (3 * n) := Nat.pow_le_pow_right (by decide) hk
      _ = 8 ^ n := Nat.pow_mul 2 3 n
      _ ≤ 10 ^ n := Nat.pow_le_pow_left (by decide) n
  exact hpow _ _ (by decide)

namespace Report

variable {α β : Type} {E : Prop} {P : α → Prop} {Q : β → Prop} {table ops : List (String × Nat)}

/-! ## Pieces -/

/-- A piece of a report has a property, or a number is too large for it, which happens only on a
condition. -/
inductive IsPiece (E : Prop) (P : α → Prop) : Except Misuse α → Prop
  | made {a : α} (h : P a) : IsPiece E P (.ok a)
  | tooLong (hE : E) : IsPiece E P (.error .longNumber)
  | tooLarge (hE : E) : IsPiece E P (.error .beyondDoubles)

theorem IsPiece.bind {x : Except Misuse α} {f : α → Except Misuse β} (hx : IsPiece E P x)
    (hf : ∀ a, P a → IsPiece E Q (f a)) : IsPiece E Q (x >>= f) := by
  cases hx with
  | made h => exact hf _ h
  | tooLong hE => exact .tooLong hE
  | tooLarge hE => exact .tooLarge hE

theorem IsPiece.mono {F : Prop} {P' : α → Prop} {x : Except Misuse α} (hx : IsPiece E P x)
    (hE : E → F) (hP : ∀ a, P a → P' a) : IsPiece F P' x := by
  cases hx with
  | made h => exact .made (hP _ h)
  | tooLong h => exact .tooLong (hE h)
  | tooLarge h => exact .tooLarge (hE h)

/-- A whole number is written, unless it is large. -/
theorem shown_isPiece (n : Nat) :
    IsPiece (Decimal.finiteBound ≤ n) (· = toString n) (Value.int n).shown := by
  rw [Value.shown, Value.written]
  cases hshort : (Value.int n).isWritable with
  | true => exact .made rfl
  | false =>
    rw [Value.isWritable, decide_eq_false_iff_not] at hshort
    exact .tooLong (Value.finiteBound_le_unwritable.trans (by simpa using hshort))

theorem count_isPiece (width n : Nat) :
    IsPiece (Decimal.finiteBound ≤ n) (· = Text.padLeft width (toString n))
      (count width (.int n)) := by
  have hintegral : (Value.int n).integral = (Value.int n).shown := by simp only [Value.integral]
  rw [count, hintegral, map_eq_pure_bind]
  exact (shown_isPiece n).bind fun _ h => .made (congrArg _ h)

/-! ## Tables of counts -/

/-- A table of counts. -/
def countFields (table : List (String × Nat)) : List (String × Value) :=
  table.map fun e => (e.1, .int e.2)

/-- **A short table of counts is ranked**: it has its entries from the greatest count to the least,
and equal counts are in order. -/
theorem ranked_countFields (hshort : table.length < 64) :
    ∃ entries, ranked (countFields table) = .ok (countFields entries) ∧ entries.Perm table ∧
      Sorting.Arranges (fun e => -(e.2 : Int)) table entries := by
  have hfield : Function.Injective fun e : String × Nat => (e.1, Value.int e.2) := by
    rintro ⟨a, m⟩ ⟨b, n⟩ h
    simpa using h
  have hcompares : Sorting.Compares (fun a b : String × Value => a.2.less b.2)
      (fun e => e.2.toInt) (countFields table).reverse := by
    intro a ha b hb
    obtain ⟨x, -, rfl⟩ := List.mem_map.1 (List.mem_reverse.1 ha)
    obtain ⟨y, -, rfl⟩ := List.mem_map.1 (List.mem_reverse.1 hb)
    rfl
  obtain ⟨ys, hys, harranges⟩ := Sorting.sort_arranges (by simpa [countFields]) hcompares
  have hperm : ys.reverse.Perm (countFields table) :=
    (List.reverse_perm ys).trans ((Sorting.sort_perm hys).trans (List.reverse_perm _))
  obtain ⟨entries, hentries⟩ : ∃ entries, countFields entries = ys.reverse := by
    rw [← Set.mem_range]
    unfold countFields
    rw [Set.range_list_map]
    intro e he
    obtain ⟨x, -, rfl⟩ := List.mem_map.1 (hperm.mem_iff.1 he)
    exact ⟨x, rfl⟩
  have hreverse := harranges.reverse
  rw [← hentries] at hperm hreverse
  refine ⟨entries, ?_, (List.map_perm_map_iff hfield).1 hperm, ?_⟩
  · rw [ranked, hys, hentries]
    rfl
  · exact @Sorting.Arranges.of_map _ (fun e => -e.2.toInt) _ _ _ _ hfield hreverse

/-! ## Lines of counts -/

/-- The line of an operator, with its share of a total. -/
def operatorLine (total : Nat) (e : String × Nat) : String :=
  "  " ++ Text.padLeft 3 e.1 ++ " : " ++ Text.padLeft 5 (toString e.2) ++ " (" ++
    Text.padLeft 5 (Decimal.fixed 1 (Decimal.ofInt e.2 * 100.0 / Decimal.ofInt total)) ++ "%)"

/-- The line of a kind. -/
def kindLine (e : String × Nat) : String :=
  "  " ++ Text.padRight 20 e.1 ++ ": " ++ Text.padLeft 3 (toString e.2)

/-- **The total of a share is not zero**, nor is its double. -/
theorem share_isPiece {n total : Nat} (hpos : 0 < n) (hle : n ≤ total) :
    IsPiece (Decimal.finiteBound ≤ total)
      (· = Decimal.ofInt n * 100.0 / Decimal.ofInt total) (share (.int n) (.int total)) := by
  rw [share]
  dsimp only [Value.number?]
  rcases Json.Number.toDouble_whole n with ⟨hn, -⟩ | ⟨hn, hlarge⟩ <;> rw [hn]
  · rcases Json.Number.toDouble_whole total with ⟨ht, hfinite⟩ | ⟨ht, hlarge⟩
    · have hzero := Decimal.ofInt_bne_zero (Int.natCast_pos.2 (hpos.trans_le hle)) hfinite
      show IsPiece _ _ (Json.Number.toDouble _ >>= _)
      rw [ht]
      show IsPiece _ _ (if _ then _ else _)
      rw [hzero]
      exact .made rfl
    · show IsPiece _ _ (Json.Number.toDouble _ >>= _)
      rw [ht]
      exact .tooLarge hlarge
  · exact .tooLarge (Nat.le_trans hlarge hle)

theorem positive_int (n : Nat) : (Value.int n).positive = .ok (decide (0 < n)) := by
  have hpositive : (Value.int n).positive = .ok (decide ((0 : Int) < n)) := rfl
  simpa using hpositive

/-- **The operators that occur have lines.** -/
theorem operatorLines_isPiece {total : Nat} (h : ∀ e ∈ table, e.2 ≤ total) :
    IsPiece (Decimal.finiteBound ≤ total)
      (· = (table.filter (0 < ·.2)).map (operatorLine total))
      (operatorLines (.int total) (countFields table)) := by
  induction table with
  | nil => exact .made rfl
  | cons e rest ih =>
    obtain ⟨he, hrest⟩ := List.forall_mem_cons.1 h
    rw [countFields, List.map_cons, operatorLines]
    dsimp only
    rw [positive_int]
    show IsPiece _ _ (if _ then _ else _)
    by_cases hpos : 0 < e.2
    · rw [if_pos (decide_eq_true hpos), List.filter_cons_of_pos (by simpa using hpos)]
      refine (share_isPiece hpos he).bind ?_
      rintro _ rfl
      refine ((count_isPiece 5 e.2).mono (Nat.le_trans · he) fun _ => id).bind ?_
      rintro _ rfl
      refine (ih hrest).bind ?_
      rintro _ rfl
      exact .made rfl
    · rw [if_neg (by simpa using hpos), List.filter_cons_of_neg (by simpa using hpos)]
      exact ih hrest

/-- The kinds that occur have lines. -/
theorem kindLines_isPiece (h : ∀ e ∈ table, Decimal.finiteBound ≤ e.2 → E) :
    IsPiece E (· = (table.filter (0 < ·.2)).map kindLine) (kindLines (countFields table)) := by
  induction table with
  | nil => exact .made rfl
  | cons e rest ih =>
    obtain ⟨he, hrest⟩ := List.forall_mem_cons.1 h
    rw [countFields, List.map_cons, kindLines]
    dsimp only
    rw [positive_int]
    show IsPiece _ _ (if _ then _ else _)
    by_cases hpos : 0 < e.2
    · rw [if_pos (decide_eq_true hpos), List.filter_cons_of_pos (by simpa using hpos)]
      refine ((count_isPiece 3 e.2).mono he fun _ => id).bind ?_
      rintro _ rfl
      refine (ih hrest).bind ?_
      rintro _ rfl
      exact .made rfl
    · rw [if_neg (by simpa using hpos), List.filter_cons_of_neg (by simpa using hpos)]
      exact ih hrest

end Report

end GrammarSuite
