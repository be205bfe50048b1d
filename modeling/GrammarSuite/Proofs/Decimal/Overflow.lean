import GrammarSuite.Proofs.Decimal.Shortest

/-!
# Quotients beyond the doubles

The double nearest to a quotient is infinite exactly from a point on, which lies half-way between
the greatest double and the next power of two. So a quotient between two others, such as an average
of two lists taken together, is within the doubles where these are.

## Main definitions

* `overflowBound`: the least number that is rounded to infinity

## Main results

* `le_roundDiv_iff`: which quotients are rounded to an even number at least
* `nearest_eq_infinite_iff`: which quotients are rounded to infinity
* `nearest_add_ne_infinite`: a quotient between two others
-/

namespace GrammarSuite.Decimal

/-- The least number that is rounded to infinity, half-way between the greatest double and the next
power of two. -/
def overflowBound : Nat := (twoPow 54 - 1) * twoPow 970

theorem twoPow_add (a b : Nat) : twoPow (a + b) = twoPow a * twoPow b := Nat.pow_add 2 a b

theorem twoPow_le_twoPow {a b : Nat} (h : a ≤ b) : twoPow a ≤ twoPow b :=
  Nat.pow_le_pow_right Nat.two_pos h

theorem finiteBound_le_overflowBound : finiteBound ≤ overflowBound := by
  have hsplit : finiteBound = twoPow 53 * twoPow 970 := twoPow_add 53 970
  rw [hsplit, overflowBound]
  exact Nat.mul_le_mul_right _ (by decide)

/-- **A quotient is rounded to an even number at least** if it reaches half a unit below it, as ties
go to the even number. -/
theorem le_roundDiv_iff {num den bound : Nat} (hden : 0 < den) (heven : bound % 2 = 0) :
    bound ≤ roundDiv num den ↔ 2 * bound * den ≤ 2 * num + den := by
  constructor
  · intro h
    calc 2 * bound * den ≤ 2 * roundDiv num den * den :=
          Nat.mul_le_mul_right _ (Nat.mul_le_mul_left _ h)
      _ ≤ 2 * num + den := (roundDiv_bounds hden).2
  · intro hlow
    by_cases hhigh : 2 * num ≤ (2 * bound + 1) * den
    · exact (roundDiv_eq hden hlow hhigh (by omega)).ge
    · by_contra hless
      -- A rounded quotient below the number is within half a unit of the quotient.
      have hbelow : (2 * roundDiv num den + 1) * den ≤ (2 * bound + 1) * den :=
        Nat.mul_le_mul_right _ (by omega)
      have hnear : 2 * num ≤ (2 * roundDiv num den + 1) * den := (roundDiv_bounds hden).1
      omega

/-- A quotient that reaches a power of two has its exponent at least. -/
theorem le_floorLog2_of_mul_le {num den k : Nat} (hnum : num ≠ 0) (hden : 0 < den)
    (h : den * twoPow k ≤ num) : k ≤ floorLog2 num den := by
  have hdenℚ : (0 : ℚ) < den := by exact_mod_cast hden
  refine le_floorLog2 hnum hden ?_
  rw [le_div_iff₀ hdenℚ, mul_comm, zpow_natCast]
  have hpow : den * 2 ^ k ≤ num := h
  exact_mod_cast hpow

/-- The bit pattern of a quotient that is so large that its denominator alone is shifted. -/
theorem nearestBits_of_large {num den k : Nat} (hnum : num ≠ 0)
    (hk : floorLog2 num den = (k + 52 : Nat)) : nearestBits num den =
      min ((k + 1074) * twoPow 52 + roundDiv num (den * twoPow k)) (2047 * twoPow 52) := by
  have hexponent : max (floorLog2 num den - 52) (-1074) = k := by omega
  have hshift : ((k : Int) + 1074).toNat = k + 1074 := by omega
  rw [nearestBits, if_neg hnum]
  dsimp only
  rw [hexponent, if_pos (Int.natCast_nonneg k), Int.toNat_natCast, Nat.shiftLeft_eq, hshift]
  rfl

/-- A quotient reaches the power of two of its exponent. -/
theorem mul_le_of_floorLog2 {num den k : Nat} (hnum : num ≠ 0) (hden : 0 < den)
    (h : floorLog2 num den = k) : den * twoPow k ≤ num := by
  obtain ⟨hlow, -⟩ := floorLog2_bounds hnum hden.ne'
  rw [h, zpow_natCast] at hlow
  have hpow : den * 2 ^ k ≤ num := by exact_mod_cast hlow
  exact hpow

/-- In the last binade a carry leads to infinity. -/
theorem carry_iff {num den : Nat} (hden : 0 < den) :
    2 * twoPow 52 ≤ roundDiv num (den * twoPow 971) ↔ overflowBound * den ≤ num := by
  have hdouble : den * twoPow 971 = 2 * (den * twoPow 970) := by
    rw [show twoPow 971 = twoPow 1 * twoPow 970 from twoPow_add 1 970, Nat.mul_left_comm]
    rfl
  have hbound : overflowBound * den = 18014398509481983 * (den * twoPow 970) := by
    rw [overflowBound, Nat.mul_assoc, Nat.mul_comm (twoPow 970)]
    rfl
  have hwidth : twoPow 52 = 4503599627370496 := rfl
  rw [le_roundDiv_iff (Nat.mul_pos hden (twoPow_pos 971)) (by decide), hdouble, hbound, hwidth]
  generalize den * twoPow 970 = scale
  omega

/-- Beyond the last binade every quotient reaches the point. -/
theorem overflowBound_mul_le {num den k : Nat} (hk : 972 ≤ k)
    (h : den * twoPow k * twoPow 52 ≤ num) : overflowBound * den ≤ num := by
  have hpower : twoPow 2 * twoPow 970 ≤ twoPow k :=
    (twoPow_add 2 970).symm.trans_le (twoPow_le_twoPow hk)
  calc overflowBound * den ≤ twoPow 2 * twoPow 52 * twoPow 970 * den :=
        Nat.mul_le_mul_right _ (Nat.mul_le_mul_right _ (by decide))
    _ = den * (twoPow 2 * twoPow 970) * twoPow 52 := by
      generalize twoPow 970 = power
      ac_rfl
    _ ≤ den * twoPow k * twoPow 52 := Nat.mul_le_mul_right _ (Nat.mul_le_mul_left _ hpower)
    _ ≤ num := h

/-- A quotient that reaches the point has the bit pattern of infinity. -/
theorem le_nearestBits_iff {num den : Nat} (hden : 0 < den) :
    2047 * twoPow 52 ≤ nearestBits num den ↔ overflowBound * den ≤ num := by
  by_cases hsmall : num < den * finiteBound
  · have hbelow : num < overflowBound * den := hsmall.trans_le <| by
      rw [Nat.mul_comm]
      exact Nat.mul_le_mul_right _ finiteBound_le_overflowBound
    exact ⟨fun h => absurd h (Nat.not_le.2 (nearestBits_lt hsmall)),
      fun h => absurd h (Nat.not_le.2 hbelow)⟩
  have hlarge : den * finiteBound ≤ num := Nat.not_lt.1 hsmall
  have hnum : num ≠ 0 := by
    have := Nat.mul_pos hden finiteBound_pos
    omega
  have hfloor := le_floorLog2_of_mul_le hnum hden hlarge
  obtain ⟨k, hk⟩ : ∃ k : Nat, floorLog2 num den = (k + 52 : Nat) :=
    ⟨(floorLog2 num den - 52).toNat, by omega⟩
  -- The quotient has fifty-three bits before its last place.
  have hreached : den * twoPow k * twoPow 52 ≤ num := by
    rw [Nat.mul_assoc, ← twoPow_add]
    exact mul_le_of_floorLog2 hnum hden hk
  rw [nearestBits_of_large hnum hk, le_min_iff, and_iff_left le_rfl]
  have hwidth : twoPow 52 = 4503599627370496 := rfl
  rcases Nat.lt_or_ge k 972 with hlast | hbeyond
  · obtain rfl : k = 971 := by omega
    rw [← carry_iff hden, hwidth]
    omega
  · -- Beyond the last binade both sides hold.
    have hsignificand : twoPow 52 ≤ roundDiv num (den * twoPow k) :=
      (le_roundDiv_iff (Nat.mul_pos hden (twoPow_pos k)) (by decide)).2 (by
        rw [hwidth] at hreached ⊢
        omega)
    refine iff_of_true ?_ (overflowBound_mul_le hbeyond hreached)
    rw [hwidth] at hsignificand ⊢
    omega

theorem nearestBits_le (num den : Nat) : nearestBits num den ≤ 2047 * twoPow 52 := by
  unfold nearestBits
  split
  · exact Nat.zero_le _
  · exact min_le_right _ _

/-- **A quotient is rounded to infinity exactly if it reaches the point.** -/
theorem nearest_eq_infinite_iff {negative : Bool} {num den : Nat} (hden : 0 < den) :
    Magnitude.ofFloat (nearest negative num den) = .infinite ↔ overflowBound * den ≤ num := by
  rw [← le_nearestBits_iff hden]
  constructor
  · intro h
    by_contra hbits
    exact nearest_ne_infinite_of_bits (Nat.not_le.1 hbits) h
  · intro h
    have hbits := (nearestBits_le num den).antisymm h
    rw [nearest, hbits]
    cases negative <;> decide +kernel

/-- **A quotient between two others is within the doubles where these are.** -/
theorem nearest_add_ne_infinite {a b c : Bool} {num num' den den' : Nat} (hden : 0 < den)
    (hden' : 0 < den') (h : Magnitude.ofFloat (nearest a num den) ≠ .infinite)
    (h' : Magnitude.ofFloat (nearest b num' den') ≠ .infinite) :
    Magnitude.ofFloat (nearest c (num + num') (den + den')) ≠ .infinite := by
  rw [Ne, nearest_eq_infinite_iff hden] at h
  rw [Ne, nearest_eq_infinite_iff hden'] at h'
  rw [Ne, nearest_eq_infinite_iff (Nat.add_pos_left hden den'), Nat.mul_add]
  omega

end GrammarSuite.Decimal
