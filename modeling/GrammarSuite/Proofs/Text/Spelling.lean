import GrammarSuite.Text.Points
import Mathlib.Data.List.Chain
import Mathlib.Tactic.Common

/-!
# Spelled texts

Characters spell a text if they are those of its code points. What is cut out of a spelled text
between characters that stand for themselves is spelled, and so are spelled texts in a row. Two
spelled texts with the same code points are the same.

Halves of UTF-16 pairs that stand side by side as a first and a second one can be joined. A text
that is written by its units and read again is joined in this way.

## Main definitions

* `IsSpelled`: characters that spell a text
* `joinPairs`: code points with the pairs among them joined
* `rejoined`: a text with its pairs joined
* `IsJoined`: a text that has no pairs to join

## Main results

* `IsSpelled.split`: the two sides of a character that stands for itself
* `IsSpelled.induction`: a spelled text along its code points
* `rejoined_eq_iff`: which spelled texts are joined to a plain one
* `isJoined_iff`: which texts are the same with their pairs joined
-/

namespace GrammarSuite.Text

/-! ## Code points of characters -/

theorem toNat_lt_pointCount (c : Char) : c.toNat < pointCount := by
  rcases c.valid with h | h
  · exact Nat.lt_trans h (by decide)
  · exact h.2

theorem isHalf_toNat (c : Char) : isHalf c.toNat = false := by
  have hvalid : c.toNat < 0xD800 ∨ 0xDFFF < c.toNat ∧ c.toNat < 0x110000 := c.valid
  simp only [isHalf, Bool.and_eq_false_iff, decide_eq_false_iff_not]
  omega

theorem toNat_ne_mark {c : Char} (h : c ≠ mark) : c.toNat ≠ mark.toNat := fun he =>
  h (Char.toNat_inj.1 he)

/-- A character other than the mark is spelled by itself. -/
theorem spell_toNat {c : Char} (h : c ≠ mark) : spell c.toNat = [c] := by
  rw [spell, isHalf_toNat, if_neg Bool.false_ne_true, if_neg (toNat_ne_mark h), Char.ofNat_toNat]

theorem pointsOf_cons {c : Char} (h : c ≠ mark) (s : List Char) :
    pointsOf (c :: s) = c.toNat :: pointsOf s := by
  cases s with
  | nil => rfl
  | cons d s => rw [pointsOf_cons_cons, if_neg h]

theorem marked_lt (c : Char) : marked c < pointCount := by
  unfold marked
  split
  · exact toNat_lt_pointCount mark
  · exact Nat.lt_of_le_of_lt (Nat.sub_le _ _) (toNat_lt_pointCount c)

theorem lt_of_mem_pointsOf {s : List Char} {n : Nat} (h : n ∈ pointsOf s) : n < pointCount := by
  induction s using pointsOf.induct with
  | case1 => cases h
  | case2 c =>
    obtain rfl : n = c.toNat := List.mem_singleton.1 h
    exact toNat_lt_pointCount c
  | case3 d rest ih =>
    rw [pointsOf_cons_cons, if_pos rfl] at h
    rcases List.mem_cons.1 h with rfl | hmem
    · exact marked_lt d
    · exact ih hmem
  | case4 c d rest hc ih =>
    rw [pointsOf_cons_cons, if_neg hc] at h
    rcases List.mem_cons.1 h with rfl | hmem
    · exact toNat_lt_pointCount c
    · exact ih hmem

/-! ## Spelled texts -/

/-- Characters that spell the text of their code points. -/
def IsSpelled (s : List Char) : Prop := (pointsOf s).flatMap spell = s

theorem isSpelled_nil : IsSpelled [] := rfl

/-- A character that stands for itself in front of a text. -/
theorem isSpelled_cons {c : Char} {s : List Char} (h : c ≠ mark) :
    IsSpelled (c :: s) ↔ IsSpelled s := by
  rw [IsSpelled, pointsOf_cons h, List.flatMap_cons, spell_toNat h]
  exact List.cons_inj_right c

/-- The characters behind marks are the mark and those of the last private plane. -/
theorem spell_marked {d : Char} (h : spell (marked d) = [mark, d]) : 0x10F000 ≤ d.toNat := by
  unfold spell at h
  split at h
  · rename_i hhalf
    obtain ⟨hlow, hhigh⟩ : 0xD800 ≤ marked d ∧ marked d < 0xE000 := by simpa [isHalf] using hhalf
    have hd : Char.ofNat (marked d + halfOffset) = d := by simpa using h
    have hvalid : (marked d + halfOffset).isValidChar := by
      simp only [Nat.isValidChar, halfOffset]
      omega
    rw [← hd, toNat_ofNat hvalid, halfOffset]
    omega
  · split at h
    · obtain rfl : mark = d := by simpa using h
      decide
    · simp at h

/-- A mark with the character behind it in front of a text. -/
theorem isSpelled_mark {d : Char} {s : List Char} :
    IsSpelled (mark :: d :: s) ↔ spell (marked d) = [mark, d] ∧ IsSpelled s := by
  rw [IsSpelled, pointsOf_cons_cons, if_pos rfl, List.flatMap_cons]
  constructor
  · intro h
    have hlength : spell (marked d) = [mark, d] := by
      have hlt := marked_lt d
      unfold spell at h ⊢
      split at h
      · simp_all
      · split at h
        · simp_all
        · -- A code point that is spelled by one character is not that of the mark.
          rename_i hhalf hmark
          have hvalid : (marked d).isValidChar := by
            simp only [isHalf, Bool.and_eq_true, decide_eq_true_eq] at hhalf
            simp only [Nat.isValidChar, pointCount] at hlt ⊢
            omega
          rw [mark_toNat] at hmark
          exact absurd (List.cons.inj h).1 (ofNat_ne_mark hvalid hmark)
    rw [hlength] at h
    exact ⟨hlength, List.append_cancel_left h⟩
  · rintro ⟨hd, hs⟩
    rw [hd]
    exact congrArg ([mark, d] ++ ·) hs

theorem not_isSpelled_mark : ¬ IsSpelled [mark] := by
  unfold IsSpelled
  decide

/-- A character that only ever stands for itself. -/
def IsPlain (c : Char) : Prop := c.toNat < 0x10F000

instance (c : Char) : Decidable (IsPlain c) := inferInstanceAs (Decidable (_ < _))

theorem IsPlain.ne_mark {c : Char} (h : IsPlain c) : c ≠ mark := by
  rintro rfl
  exact absurd h (by decide)

theorem isSpelled_of_plain {s : List Char} (h : ∀ c ∈ s, IsPlain c) : IsSpelled s := by
  induction s with
  | nil => exact isSpelled_nil
  | cons c s ih =>
    obtain ⟨hc, hs⟩ := List.forall_mem_cons.1 h
    exact (isSpelled_cons hc.ne_mark).2 (ih hs)

/-- **The two sides of a character that stands for itself.** -/
theorem IsSpelled.split {s rest : List Char} {c : Char} (h : IsSpelled (s ++ c :: rest))
    (hc : IsPlain c) : IsSpelled s ∧ IsSpelled rest := by
  induction s using pointsOf.induct with
  | case1 => exact ⟨isSpelled_nil, (isSpelled_cons hc.ne_mark).1 h⟩
  | case2 d =>
    by_cases hd : d = mark
    · rw [hd] at h
      exact absurd (spell_marked (isSpelled_mark.1 h).1) (Nat.not_le.2 hc)
    · have hrest := (isSpelled_cons hd).1 h
      exact ⟨(isSpelled_cons hd).2 isSpelled_nil, (isSpelled_cons hc.ne_mark).1 hrest⟩
  | case3 d s ih =>
    obtain ⟨hd, hs⟩ := isSpelled_mark.1 h
    obtain ⟨hleft, hright⟩ := ih hs
    exact ⟨isSpelled_mark.2 ⟨hd, hleft⟩, hright⟩
  | case4 d e s hd ih =>
    obtain ⟨hleft, hright⟩ := ih ((isSpelled_cons hd).1 h)
    exact ⟨(isSpelled_cons hd).2 hleft, hright⟩

/-- Induction over spelled texts: a code point is spelled by a character that stands for itself, or
by a mark and the character behind it. -/
@[elab_as_elim]
theorem IsSpelled.induction {motive : ∀ s, IsSpelled s → Prop} (nil : motive [] isSpelled_nil)
    (cons : ∀ c s (hc : c ≠ mark) (hs : IsSpelled s), motive s hs →
      motive (c :: s) ((isSpelled_cons hc).2 hs))
    (marked : ∀ d s (hd : spell (marked d) = [mark, d]) (hs : IsSpelled s), motive s hs →
      motive (mark :: d :: s) (isSpelled_mark.2 ⟨hd, hs⟩)) {s : List Char} (h : IsSpelled s) :
    motive s h := by
  induction s using pointsOf.induct with
  | case1 => exact nil
  | case2 d =>
    have hd : d ≠ mark := by
      rintro rfl
      exact not_isSpelled_mark h
    exact cons d [] hd isSpelled_nil nil
  | case3 d s ih =>
    obtain ⟨hd, hs⟩ := isSpelled_mark.1 h
    exact marked d s hd hs (ih hs)
  | case4 d e s hd ih =>
    have hs := (isSpelled_cons hd).1 h
    exact cons d (e :: s) hd hs (ih hs)

/-- The code points of a spelled text come before those of what follows it. -/
theorem pointsOf_append {s : List Char} (h : IsSpelled s) (t : List Char) :
    pointsOf (s ++ t) = pointsOf s ++ pointsOf t := by
  induction h using IsSpelled.induction with
  | nil => rfl
  | cons c s hc hs ih => rw [List.cons_append, pointsOf_cons hc, pointsOf_cons hc, ih, List.cons_append]
  | marked d s hd hs ih =>
    rw [List.cons_append, List.cons_append, pointsOf_cons_cons, if_pos rfl, pointsOf_cons_cons,
      if_pos rfl, ih, List.cons_append]

theorem IsSpelled.append {s t : List Char} (hs : IsSpelled s) (ht : IsSpelled t) :
    IsSpelled (s ++ t) := by
  induction hs using IsSpelled.induction with
  | nil => exact ht
  | cons c s hc hs ih => exact (isSpelled_cons hc).2 ih
  | marked d s hd hs ih => exact isSpelled_mark.2 ⟨hd, ih⟩

theorem isSpelled_spell {n : Nat} (h : n < pointCount) : IsSpelled (spell n) := by
  have hpoints := pointsOf_spell_append h []
  rw [List.append_nil] at hpoints
  rw [IsSpelled, hpoints]
  simp [pointsOf_nil]

/-! ## Joined pairs -/

/-- Whether a code point is a first half, and whether it is a second one. -/
def isFirst (n : Nat) : Bool := 0xD800 ≤ n && n < 0xDC00

/-- Whether a code point is a second half. -/
def isSecond (n : Nat) : Bool := 0xDC00 ≤ n && n < 0xE000

/-- The code point of two halves. -/
def joined (first second : Nat) : Nat := 0x10000 + (first - 0xD800) * 0x400 + (second - 0xDC00)

/-- Code points with the pairs among them joined. -/
def joinPairs : List Nat → List Nat
  | [] => []
  | [n] => [n]
  | n :: m :: rest =>
    if isFirst n && isSecond m then joined n m :: joinPairs rest else n :: joinPairs (m :: rest)

theorem joinPairs_cons_cons (n m : Nat) (rest : List Nat) :
    joinPairs (n :: m :: rest) =
      if isFirst n && isSecond m then joined n m :: joinPairs rest
      else n :: joinPairs (m :: rest) := rfl

/-- A text with its pairs joined. -/
def rejoined (s : String) : String := ofPoints (joinPairs (points s))

theorem le_joined (n m : Nat) : 0x10000 ≤ joined n m := by
  unfold joined
  omega

theorem joined_lt {n m : Nat} (hn : isFirst n = true) (hm : isSecond m = true) :
    joined n m < pointCount := by
  simp only [isFirst, isSecond, Bool.and_eq_true, decide_eq_true_eq] at hn hm
  unfold joined pointCount
  omega

theorem joinPairs_lt {ns : List Nat} (h : ∀ n ∈ ns, n < pointCount) :
    ∀ n ∈ joinPairs ns, n < pointCount := by
  induction ns using joinPairs.induct with
  | case1 => exact h
  | case2 n => exact h
  | case3 n m rest hpair ih =>
    obtain ⟨hn, hm⟩ := Bool.and_eq_true_iff.1 hpair
    rw [joinPairs_cons_cons, if_pos hpair, List.forall_mem_cons]
    exact ⟨joined_lt hn hm, ih fun k hk => h k (by simp [hk])⟩
  | case4 n m rest hpair ih =>
    rw [joinPairs_cons_cons, if_neg hpair, List.forall_mem_cons]
    exact ⟨h n (by simp), ih fun k hk => h k (List.mem_cons_of_mem _ hk)⟩

/-- Pairs make large code points. -/
theorem joinPairs_eq_of_small {ns : List Nat} (h : ∀ n ∈ joinPairs ns, n < 0x10000) :
    joinPairs ns = ns := by
  induction ns using joinPairs.induct with
  | case1 => rfl
  | case2 n => rfl
  | case3 n m rest hpair ih =>
    rw [joinPairs_cons_cons, if_pos hpair] at h
    exact absurd (h (joined n m) (by simp)) (Nat.not_lt.2 (le_joined n m))
  | case4 n m rest hpair ih =>
    rw [joinPairs_cons_cons, if_neg hpair] at h ⊢
    rw [ih fun k hk => h k (List.mem_cons_of_mem _ hk)]

theorem joinPairs_eq_nil_iff {ns : List Nat} : joinPairs ns = [] ↔ ns = [] := by
  rcases ns with _ | ⟨n, _ | ⟨m, rest⟩⟩
  · exact iff_of_true rfl rfl
  · exact Iff.rfl
  · rw [joinPairs_cons_cons]
    split <;> simp

/-- Code points of which no two side by side make a pair. -/
def IsUnpaired (ns : List Nat) : Prop := ns.IsChain fun n m => (isFirst n && isSecond m) = false

theorem joinPairs_eq_self_iff {ns : List Nat} : joinPairs ns = ns ↔ IsUnpaired ns := by
  induction ns using joinPairs.induct with
  | case1 => exact iff_of_true rfl .nil
  | case2 n => exact iff_of_true rfl (.singleton n)
  | case3 n m rest hpair ih =>
    -- The code point of a pair is larger than a half.
    rw [joinPairs_cons_cons, if_pos hpair, IsUnpaired, List.isChain_cons_cons, hpair]
    refine iff_of_false (fun h => ?_) fun h => nomatch h.1
    obtain ⟨hn, -⟩ := Bool.and_eq_true_iff.1 hpair
    rw [← (List.cons.inj h).1, isFirst] at hn
    have hlarge := le_joined n m
    simp at hn
    omega
  | case4 n m rest hpair ih =>
    rw [joinPairs_cons_cons, if_neg hpair, IsUnpaired, List.isChain_cons_cons, List.cons_inj_right, ih]
    exact (and_iff_right (by simpa using hpair)).symm

/-- Where there are no first halves, there are no pairs. -/
theorem joinPairs_eq_self {ns : List Nat} (h : ∀ n ∈ ns, isFirst n = false) : joinPairs ns = ns := by
  refine joinPairs_eq_self_iff.2 (List.Pairwise.isChain ?_)
  exact List.pairwise_of_forall_mem_list fun n hn m _ => by rw [h n hn, Bool.false_and]

theorem points_rejoined (s : String) : points (rejoined s) = joinPairs (points s) :=
  points_ofPoints (joinPairs_lt fun _ hn => lt_of_mem_pointsOf hn)

/-- A spelled text is known from its code points. -/
theorem ofPoints_points {s : String} (h : IsSpelled s.toList) : ofPoints (points s) = s := by
  rw [ofPoints, points, h, String.ofList_toList]

/-! ## Plain texts -/

/-- A text of characters of ASCII. -/
def IsAscii (s : String) : Prop := ∀ c ∈ s.toList, c.toNat < 0x80

instance (s : String) : Decidable (IsAscii s) :=
  decidable_of_iff ((s.toList.all fun c => decide (c.toNat < 0x80)) = true) (by simp [IsAscii])

theorem IsAscii.isSpelled {s : String} (h : IsAscii s) : IsSpelled s.toList :=
  isSpelled_of_plain fun c hc => Nat.lt_trans (h c hc) (by decide)

theorem points_of_ascii {s : String} (h : IsAscii s) : points s = s.toList.map Char.toNat := by
  have hne : ∀ c ∈ s.toList, c ≠ mark := fun c hc => IsPlain.ne_mark (Nat.lt_trans (h c hc) (by decide))
  rw [points]
  generalize s.toList = cs at hne
  induction cs with
  | nil => rfl
  | cons c cs ih =>
    obtain ⟨hc, hcs⟩ := List.forall_mem_cons.1 hne
    rw [pointsOf_cons hc, ih hcs]
    rfl

theorem lt_of_mem_points_ascii {s : String} (h : IsAscii s) {n : Nat} (hn : n ∈ points s) :
    n < 0x80 := by
  rw [points_of_ascii h] at hn
  obtain ⟨c, hc, rfl⟩ := List.mem_map.1 hn
  exact h c hc

theorem rejoined_of_ascii {s : String} (h : IsAscii s) : rejoined s = s := by
  rw [rejoined, joinPairs_eq_self, ofPoints_points h.isSpelled]
  intro n hn
  have := lt_of_mem_points_ascii h hn
  simp only [isFirst, Bool.and_eq_false_iff, decide_eq_false_iff_not]
  omega

/-- **A plain text comes from itself only when pairs are joined.** -/
theorem rejoined_eq_iff {s name : String} (hs : IsSpelled s.toList) (hname : IsAscii name) :
    rejoined s = name ↔ s = name := by
  constructor
  · intro h
    have hpoints := congrArg points h
    rw [points_rejoined] at hpoints
    have hsmall : ∀ n ∈ joinPairs (points s), n < 0x10000 := fun n hn =>
      Nat.lt_trans (lt_of_mem_points_ascii hname (hpoints ▸ hn)) (by decide)
    rw [joinPairs_eq_of_small hsmall] at hpoints
    rw [← ofPoints_points hs, hpoints, ofPoints_points hname.isSpelled]
  · rintro rfl
    exact rejoined_of_ascii hname

theorem pointsOf_eq_nil_iff {s : List Char} : pointsOf s = [] ↔ s = [] := by
  rcases s with _ | ⟨c, _ | ⟨d, rest⟩⟩
  · simp [pointsOf_nil]
  · simp [pointsOf_singleton]
  · rw [pointsOf_cons_cons]
    split <;> simp

/-- Only the empty text is empty with its pairs joined. -/
theorem rejoined_eq_empty_iff {s : String} : rejoined s = "" ↔ s = "" := by
  constructor
  · intro h
    have hpoints := congrArg points h
    rw [points_rejoined] at hpoints
    have hnil := pointsOf_eq_nil_iff.1 (joinPairs_eq_nil_iff.1 hpoints)
    exact String.toList_eq_nil_iff.1 hnil
  · rintro rfl
    exact rejoined_of_ascii (by decide)

/-! ## Texts without pairs of halves -/

/-- A text that is the same with its pairs joined. -/
def IsJoined (s : String) : Prop := rejoined s = s

instance (s : String) : Decidable (IsJoined s) := inferInstanceAs (Decidable (_ = _))

theorem isSpelled_ofPoints {ns : List Nat} (h : ∀ n ∈ ns, n < pointCount) :
    IsSpelled (ofPoints ns).toList := by
  have hpoints := points_ofPoints h
  rw [points] at hpoints
  rw [IsSpelled, hpoints, ofPoints, String.toList_ofList]

/-- **A text stays as it is when pairs are joined** exactly if it is spelled and has none. -/
theorem isJoined_iff {s : String} :
    IsJoined s ↔ IsSpelled s.toList ∧ IsUnpaired (pointsOf s.toList) := by
  constructor
  · intro h
    have hspelled : IsSpelled s.toList := by
      rw [← show rejoined s = s from h]
      exact isSpelled_ofPoints (joinPairs_lt fun _ hn => lt_of_mem_pointsOf hn)
    refine ⟨hspelled, joinPairs_eq_self_iff.1 ?_⟩
    have hpoints := points_rejoined s
    rw [show rejoined s = s from h] at hpoints
    exact hpoints.symm
  · rintro ⟨hspelled, hunpaired⟩
    rw [IsJoined, rejoined, points, joinPairs_eq_self_iff.2 hunpaired]
    exact ofPoints_points hspelled

end GrammarSuite.Text
