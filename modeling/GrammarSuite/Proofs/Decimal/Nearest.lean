import Mathlib.Algebra.Order.Field.Power
import Mathlib.Algebra.Order.Ring.Rat
import Mathlib.Tactic.FieldSimp
import Mathlib.Tactic.Ring
import GrammarSuite.Decimal.Binary

/-!
# Quotients within the doubles

The double nearest to a quotient is infinite only if the quotient reaches a power of two near the
greatest double. The exponent of a quotient is known from the powers of two around it, which bound
the exponent field of its bit pattern; and a bit pattern whose exponent field is not full is read
back with one that is not full.

## Main definitions

* `finiteBound`: the power of two

## Main results

* `floorLog2_bounds`: the powers of two around a quotient
* `nearestBits_lt`: the bit pattern of a quotient that is not too large
* `nearest_ne_infinite`: such a quotient has a finite double
-/

namespace GrammarSuite.Decimal

open Float.Model

open Float.Model.UnpackedFloat (unpackExponent packedZero)

/-- A power of two below which no quotient is rounded to infinity. -/
def finiteBound : Nat := twoPow 1023

theorem twoPow_pos (n : Nat) : 0 < twoPow n := Nat.two_pow_pos n

theorem finiteBound_pos : 0 < finiteBound := twoPow_pos _

/-! ## The binade of a quotient -/

/-- Shifts on either side compare a quotient with a power of two. -/
theorem shifted_le_iff (num den : Nat) (k : Int) :
    (if 0 ≤ k then den <<< k.toNat ≤ num else den ≤ num <<< (-k).toNat) ↔
      (den : ℚ) * 2 ^ k ≤ num := by
  split
  · rename_i hk
    rw [Nat.shiftLeft_eq, ← Nat.cast_le (α := ℚ)]
    conv_rhs => rw [← Int.toNat_of_nonneg hk, zpow_natCast]
    push_cast
    rfl
  · rename_i hk
    have hneg : k = -((-k).toNat : Int) := by omega
    rw [Nat.shiftLeft_eq, ← Nat.cast_le (α := ℚ)]
    conv_rhs => rw [hneg, zpow_neg, zpow_natCast, mul_inv_le_iff₀ (pow_pos two_pos _)]
    push_cast
    rfl

/-- **A quotient lies between two powers of two** next to each other. -/
theorem floorLog2_bounds {num den : Nat} (hnum : num ≠ 0) (hden : den ≠ 0) :
    (den : ℚ) * 2 ^ floorLog2 num den ≤ num ∧ (num : ℚ) < den * 2 ^ (floorLog2 num den + 1) := by
  have hnumLow : (2 : ℚ) ^ (num.log2 : Int) ≤ num := by
    rw [zpow_natCast]
    exact_mod_cast Nat.log2_self_le hnum
  have hnumHigh : (num : ℚ) < 2 ^ ((num.log2 : Int) + 1) := by
    exact_mod_cast Nat.lt_log2_self (n := num)
  have hdenLow : (2 : ℚ) ^ (den.log2 : Int) ≤ den := by
    rw [zpow_natCast]
    exact_mod_cast Nat.log2_self_le hden
  have hdenHigh : (den : ℚ) < 2 ^ ((den.log2 : Int) + 1) := by
    exact_mod_cast Nat.lt_log2_self (n := den)
  -- The guess from the lengths of the two numbers is right, or greater by one.
  have hfloor : floorLog2 num den = if (den : ℚ) * 2 ^ ((num.log2 : Int) - den.log2) ≤ num then
      (num.log2 : Int) - den.log2 else (num.log2 : Int) - den.log2 - 1 :=
    if_congr (shifted_le_iff num den _) rfl rfl
  rw [hfloor]
  split
  · rename_i hreached
    refine ⟨hreached, ?_⟩
    calc (num : ℚ) < 2 ^ ((num.log2 : Int) + 1) := hnumHigh
      _ = 2 ^ (den.log2 : Int) * 2 ^ ((num.log2 : Int) - den.log2 + 1) := by
        rw [← zpow_add₀ (by decide)]
        congr 1
        omega
      _ ≤ den * 2 ^ ((num.log2 : Int) - den.log2 + 1) :=
        mul_le_mul_of_nonneg_right hdenLow (by positivity)
  · rename_i hreached
    rw [sub_add_cancel]
    refine ⟨?_, not_le.1 hreached⟩
    calc (den : ℚ) * 2 ^ ((num.log2 : Int) - den.log2 - 1)
        ≤ 2 ^ ((den.log2 : Int) + 1) * 2 ^ ((num.log2 : Int) - den.log2 - 1) :=
          mul_le_mul_of_nonneg_right hdenHigh.le (by positivity)
      _ = 2 ^ (num.log2 : Int) := by
        rw [← zpow_add₀ (by decide)]
        congr 1
        omega
      _ ≤ num := hnumLow

/-- A quotient that is at most a number is rounded to at most this number. -/
theorem roundDiv_le {num den bound : Nat} (hden : 0 < den) (h : num ≤ bound * den) :
    roundDiv num den ≤ bound := by
  have hdouble : (2 * roundDiv num den) * den ≤ (2 * bound + 1) * den := by
    calc (2 * roundDiv num den) * den ≤ 2 * num + den := (roundDiv_bounds hden).2
      _ ≤ 2 * (bound * den) + den := by omega
      _ = (2 * bound + 1) * den := by rw [Nat.add_mul, Nat.one_mul, Nat.mul_assoc]
  have hle := Nat.le_of_mul_le_mul_right hdouble hden
  omega

/-! ## Bit patterns -/

/-- The significand of a quotient has fifty-three bits at most, or is the least number beyond. -/
theorem significand_le {num den : Nat} {exponent : Int} (hden : 0 < den)
    (hscaled : (num : ℚ) ≤ den * 2 ^ (exponent + 53)) :
    (if 0 ≤ exponent then roundDiv num (den <<< exponent.toNat)
      else roundDiv (num <<< (-exponent).toNat) den) ≤ 2 ^ 53 := by
  rw [zpow_add₀ (by decide)] at hscaled
  split
  · rename_i hsign
    rw [Nat.shiftLeft_eq]
    refine roundDiv_le (Nat.mul_pos hden (Nat.two_pow_pos _)) ?_
    rw [← Int.toNat_of_nonneg hsign, zpow_natCast] at hscaled
    have hnat : (num : ℚ) ≤ (2 ^ 53 * (den * 2 ^ exponent.toNat) : Nat) := by
      push_cast
      calc (num : ℚ) ≤ den * (2 ^ exponent.toNat * 2 ^ (53 : Int)) := hscaled
        _ = 2 ^ 53 * (den * 2 ^ exponent.toNat) := by
          rw [show (2 : ℚ) ^ (53 : Int) = 2 ^ 53 from zpow_natCast 2 53]
          ring
    exact_mod_cast hnat
  · rename_i hsign
    refine roundDiv_le hden ?_
    have hneg : exponent = -((-exponent).toNat : Int) := by omega
    rw [hneg, zpow_neg, zpow_natCast] at hscaled
    rw [Nat.shiftLeft_eq]
    have hpos : (0 : ℚ) < 2 ^ (-exponent).toNat := pow_pos two_pos _
    have hnat : (num * 2 ^ (-exponent).toNat : ℚ) ≤ (2 ^ 53 * den : Nat) := by
      push_cast
      calc (num * 2 ^ (-exponent).toNat : ℚ)
          ≤ den * ((2 ^ (-exponent).toNat)⁻¹ * 2 ^ (53 : Int)) * 2 ^ (-exponent).toNat :=
            mul_le_mul_of_nonneg_right hscaled hpos.le
        _ = 2 ^ 53 * den := by field_simp
    exact_mod_cast hnat

/-- **A quotient below a power of two near the greatest double has a bit pattern with an exponent
that is not full.** -/
theorem nearestBits_lt {num den : Nat} (h : num < den * finiteBound) :
    nearestBits num den < 2047 * twoPow 52 := by
  have hden : 0 < den := Nat.pos_of_ne_zero fun hzero => by simp [hzero] at h
  unfold nearestBits
  split
  · decide
  · rename_i hnum
    obtain ⟨hlow, hhigh⟩ := floorLog2_bounds hnum hden.ne'
    generalize floorLog2 num den = e at hlow hhigh
    have hbinade : ∀ k : Nat, num < den * twoPow k → e < k := fun k hk => by
      have hcast : (num : ℚ) < den * 2 ^ (k : Int) := by
        have hpow : num < den * 2 ^ k := hk
        rw [zpow_natCast]
        exact_mod_cast hpow
      have hpow : (2 : ℚ) ^ e < 2 ^ (k : Int) :=
        lt_of_mul_lt_mul_left (hlow.trans_lt hcast) (Nat.cast_nonneg den)
      exact (zpow_lt_zpow_iff_right₀ (by norm_num)).1 hpow
    have he := hbinade 1023 h
    dsimp only
    have hexponent : e - 52 ≤ max (e - 52) (-1074) := le_max_left _ _
    have hbelow : max (e - 52) (-1074) ≤ 970 := max_le (by omega) (by decide)
    generalize max (e - 52) (-1074) = exponent at hexponent hbelow
    -- In the binade of the quotient there are fifty-three bits at most.
    have hscaled : (num : ℚ) ≤ den * 2 ^ (exponent + 53) :=
      hhigh.le.trans (mul_le_mul_of_nonneg_left (zpow_le_zpow_right₀ (by norm_num) (by omega))
        (Nat.cast_nonneg den))
    have hsignificand := significand_le hden hscaled
    have htop : (exponent + 1074).toNat ≤ 2044 := by omega
    refine (min_le_left _ _).trans_lt ?_
    calc (exponent + 1074).toNat * twoPow 52 + _ ≤ 2044 * twoPow 52 + 2 ^ 53 :=
          Nat.add_le_add (Nat.mul_le_mul_right _ htop) hsignificand
      _ < 2047 * twoPow 52 := by decide

/-- The exponent field of a bit pattern. -/
theorem toNat_unpackExponent (b : BitVec Format.binary64.numBits) :
    (unpackExponent b).toNat = b.toNat / twoPow 52 % twoPow 11 := by
  simp [unpackExponent, Nat.shiftRight_eq_div_pow, twoPow]

/-- The exponent field of a finite number that is not too large is not full. -/
theorem unpackExponent_pack_finite {sign : UnpackedFloat.Sign} {m : Nat} {e : Int} {hm : 0 < m}
    (h : (e + 1023 + 52).toNat < 2047) :
    unpackExponent (UnpackedFloat.pack Format.binary64 (.finite sign m e hm)) ≠ -1#_ := by
  have hbiased : (e + Format.binary64.exponentBias + (52 : Nat)).toNat < 2047 := h
  unfold UnpackedFloat.pack
  dsimp only
  rw [if_neg (by omega)]
  split
  · rw [UnpackedFloat.unpackExponent_packComponents]
    intro heq
    have hnat := congrArg BitVec.toNat heq
    rw [BitVec.toNat_ofNat, Nat.mod_eq_of_lt (by omega)] at hnat
    exact hbiased.ne hnat
  · rw [UnpackedFloat.unpackExponent_packComponents]
    decide

/-- A bit pattern whose exponent field is not full is read back with one that is not full. -/
theorem unpackExponent_pack_unpack {b : BitVec Format.binary64.numBits}
    (h : unpackExponent b ≠ -1#_) :
    unpackExponent (UnpackedFloat.pack Format.binary64 (UnpackedFloat.unpack Format.binary64 b)) ≠
      -1#_ := by
  have hfull : (unpackExponent b).toNat ≠ 2047 := fun hfull => h (BitVec.eq_of_toNat_eq hfull)
  have hfield : (unpackExponent b).toNat < 2048 := (unpackExponent b).isLt
  have hbias : Format.binary64.exponentBias = 1023 := rfl
  have hbits : Format.binary64.mantissaBitsWithoutImplicit = 52 := rfl
  unfold UnpackedFloat.unpack
  rw [if_neg h]
  by_cases hzero : unpackExponent b = 0#_
  · rw [if_pos hzero]
    by_cases hmantissa : UnpackedFloat.unpackMantissa b = 0#_
    · rw [dif_pos hmantissa]
      unfold UnpackedFloat.pack
      rw [packedZero, UnpackedFloat.unpackExponent_packComponents]
      decide
    · -- The subnormal numbers have the exponent of the least normal ones.
      rw [dif_neg hmantissa]
      refine unpackExponent_pack_finite ?_
      rw [hzero, hbias, BitVec.toNat_zero]
      decide
  · rw [if_neg hzero]
    refine unpackExponent_pack_finite ?_
    rw [hbias, hbits]
    omega

/-- A double whose exponent field is not full is not infinite. -/
theorem ofBits_ne_infinite {bits : UInt64}
    (h : bits.toNat / twoPow 52 % twoPow 11 ≠ 2047) :
    Magnitude.ofFloat (Float.ofBits bits) ≠ .infinite := by
  have hunpacked : @unpackExponent Format.binary64 bits.toBitVec ≠ -1#_ :=
    fun hfull => h (by
      rw [← UInt64.toNat_toBitVec,
        ← toNat_unpackExponent (bits.toBitVec : BitVec Format.binary64.numBits), hfull]
      rfl)
  have hback := unpackExponent_pack_unpack hunpacked
  have hbiased : (Float.ofBits bits).toBits.toNat / twoPow 52 % twoPow 11 ≠ 2047 := fun hfull =>
    hback (BitVec.eq_of_toNat_eq ((toNat_unpackExponent _).trans hfull))
  unfold Magnitude.ofFloat
  dsimp only
  split
  · simp
  · simp

/-- A quotient whose bit pattern has an exponent that is not full has a finite double. -/
theorem nearest_ne_infinite_of_bits {negative : Bool} {num den : Nat}
    (hbits : nearestBits num den < 2047 * twoPow 52) :
    Magnitude.ofFloat (nearest negative num den) ≠ .infinite := by
  have htop : 2047 * twoPow 52 < twoPow 63 := by decide
  refine ofBits_ne_infinite ?_
  have hnat : (UInt64.ofNat (nearestBits num den + if negative then twoPow 63 else 0)).toNat =
      nearestBits num den + if negative then twoPow 63 else 0 := by
    rw [UInt64.toNat_ofNat']
    refine Nat.mod_eq_of_lt ?_
    have hdouble : 2 ^ 64 = twoPow 63 + twoPow 63 := by decide
    rw [hdouble]
    split <;> omega
  rw [hnat]
  have hfield : nearestBits num den / twoPow 52 < 2047 :=
    Nat.div_lt_of_lt_mul (by rwa [Nat.mul_comm])
  have hsign : (nearestBits num den + if negative then twoPow 63 else 0) / twoPow 52 =
      nearestBits num den / twoPow 52 + if negative then twoPow 11 else 0 := by
    have hshift : twoPow 63 = twoPow 11 * twoPow 52 := by decide
    cases negative
    · simp
    · simp only [if_true]
      rw [hshift, Nat.add_mul_div_right _ _ (by decide)]
  have hsize : twoPow 11 = 2048 := by decide
  rw [hsign, hsize]
  generalize nearestBits num den / twoPow 52 = field at hfield
  split <;> omega

/-- **A quotient that is not too large has a finite double.** -/
theorem nearest_ne_infinite {negative : Bool} {num den : Nat} (h : num < den * finiteBound) :
    Magnitude.ofFloat (nearest negative num den) ≠ .infinite :=
  nearest_ne_infinite_of_bits (nearestBits_lt h)

end GrammarSuite.Decimal
