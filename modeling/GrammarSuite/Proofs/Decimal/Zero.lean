import GrammarSuite.Proofs.Decimal.Overflow
import GrammarSuite.Json.Number

/-!
# Doubles that are not zero

A double is equal to zero only if its exponent field is zero. The bit pattern of a quotient that is
at least one has an exponent field that is neither zero nor full, unless the quotient is too large,
and such a bit pattern is read back with its exponent. So the double of a positive whole number is
not zero, if there is one.

## Main results

* `unpackExponent_of_beq_zero`: the exponent field of a zero
* `unpackExponent_pack_unpack_of_normal`: an exponent field that is read back
* `ofInt_bne_zero`: the double of a positive number
* `Json.Number.toDouble_whole`: a whole number has a double unless it is large
-/

namespace GrammarSuite.Decimal

open Float.Model

open Float.Model.UnpackedFloat (unpackExponent)

/-- A bit pattern whose exponent field is not zero is not read as a zero. -/
theorem unpack_ne_zero {b : BitVec Format.binary64.numBits} {s : UnpackedFloat.Sign}
    (h : unpackExponent b ≠ 0#_) : UnpackedFloat.unpack Format.binary64 b ≠ .zero s := by
  intro hs
  unfold UnpackedFloat.unpack at hs
  dsimp only at hs
  rw [if_neg h] at hs
  by_cases hfull : unpackExponent b = -1#_
  · rw [if_pos hfull] at hs
    by_cases hmantissa : UnpackedFloat.unpackMantissa b = 0#_
    · rw [if_pos hmantissa] at hs
      cases hs
    · rw [if_neg hmantissa] at hs
      cases hs
  · rw [if_neg hfull] at hs
    cases hs

/-- A zero has the exponent field zero. -/
theorem unpackExponent_of_beq_zero {x : Float} (h : (x == 0.0) = true) :
    @unpackExponent Format.binary64 x.toBits.toBitVec = 0#_ := by
  have hzero : (0.0 : Float).toModel.unpack = .zero .positive := rfl
  have hcompare : (x.toModel.unpack.compare (0.0 : Float).toModel.unpack == some .eq) = true := h
  have hunpack : ∃ s, x.toModel.unpack = .zero s := by
    rw [hzero] at hcompare
    cases hx : x.toModel.unpack with
    | zero s => exact ⟨s, rfl⟩
    | notANumber =>
      rw [hx] at hcompare
      exact absurd hcompare Bool.false_ne_true
    | infinity s =>
      rw [hx] at hcompare
      cases s <;> exact absurd hcompare Bool.false_ne_true
    | finite s m e hm =>
      rw [hx] at hcompare
      cases s <;> exact absurd hcompare Bool.false_ne_true
  obtain ⟨s, hs⟩ := hunpack
  by_contra hexponent
  exact unpack_ne_zero hexponent hs

/-- An exponent field that is neither zero nor full is read back as it is. -/
theorem unpackExponent_pack_unpack_of_normal {b : BitVec Format.binary64.numBits}
    (hzero : unpackExponent b ≠ 0#_) (hfull : unpackExponent b ≠ -1#_) :
    unpackExponent (UnpackedFloat.pack Format.binary64 (UnpackedFloat.unpack Format.binary64 b)) =
      unpackExponent b := by
  have hlt : (unpackExponent b).toNat < 2048 := (unpackExponent b).isLt
  have hne : (unpackExponent b).toNat ≠ 2047 := fun h => hfull (BitVec.eq_of_toNat_eq h)
  have hbias : Format.binary64.exponentBias = 1023 := rfl
  have hbits : Format.binary64.mantissaBitsWithoutImplicit = 52 := rfl
  -- The hidden bit is the fifty-third of the significand.
  have hsignificand : (1#1 ++ UnpackedFloat.unpackMantissa b).toNat =
      2 ^ 52 + (UnpackedFloat.unpackMantissa b).toNat := by
    rw [BitVec.toNat_append, ← Nat.shiftLeft_add_eq_or_of_lt (UnpackedFloat.unpackMantissa b).isLt,
      Nat.shiftLeft_eq]
    show 1 * 2 ^ 52 + _ = _
    rw [Nat.one_mul]
  have hlog : (1#1 ++ UnpackedFloat.unpackMantissa b).toNat.log2 = 52 := by
    have hmantissa : (UnpackedFloat.unpackMantissa b).toNat < 2 ^ 52 :=
      (UnpackedFloat.unpackMantissa b).isLt
    rw [hsignificand, Nat.log2_eq_iff (by omega)]
    omega
  have hbiased : ((unpackExponent b).toNat - ((Format.binary64.exponentBias : Int) +
      Format.binary64.mantissaBitsWithoutImplicit) + Format.binary64.exponentBias +
      Format.binary64.mantissaBitsWithoutImplicit).toNat = (unpackExponent b).toNat := by
    omega
  have hfits : ¬ 2 ^ Format.binary64.exponentBits ≤ (unpackExponent b).toNat + 1 := by
    show ¬ 2048 ≤ _
    omega
  unfold UnpackedFloat.unpack
  dsimp only
  rw [if_neg hfull, if_neg hzero]
  unfold UnpackedFloat.pack
  dsimp only
  have hnormal : 52 + 1 = Format.binary64.mantissaBits := rfl
  rw [hbiased, if_neg hfits, hlog, if_pos hnormal, UnpackedFloat.unpackExponent_packComponents,
    BitVec.ofNat_toNat, BitVec.setWidth_eq]

/-- A bit pattern whose exponent field is neither zero nor full is that of a double that is not
zero. -/
theorem ofBits_bne_zero {bits : UInt64} (hzero : bits.toNat / twoPow 52 % twoPow 11 ≠ 0)
    (hfull : bits.toNat / twoPow 52 % twoPow 11 ≠ 2047) : (Float.ofBits bits == 0.0) = false := by
  by_contra h
  have hfield : (@unpackExponent Format.binary64 bits.toBitVec).toNat =
      bits.toNat / twoPow 52 % twoPow 11 :=
    toNat_unpackExponent (bits.toBitVec : BitVec Format.binary64.numBits)
  have hread := unpackExponent_pack_unpack_of_normal (b := bits.toBitVec)
    (fun heq => hzero (by rw [← hfield, heq]; rfl)) (fun heq => hfull (by rw [← hfield, heq]; rfl))
  have hback := unpackExponent_of_beq_zero (eq_true_of_ne_false h)
  refine hzero ?_
  rw [← hfield, ← hread]
  exact congrArg BitVec.toNat hback

/-- The bit pattern of a quotient that is at least one has an exponent field that is not zero. -/
theorem le_nearestBits {num den : Nat} (hden : 0 < den) (h : den ≤ num) :
    twoPow 52 ≤ nearestBits num den := by
  have hnum : num ≠ 0 := by omega
  have hfloor : ((0 : Nat) : Int) ≤ floorLog2 num den :=
    le_floorLog2_of_mul_le hnum hden (by rw [twoPow, Nat.pow_eq, Nat.pow_zero, Nat.mul_one]; exact h)
  unfold nearestBits
  rw [if_neg hnum]
  dsimp only
  generalize floorLog2 num den = e at hfloor ⊢
  have hexponent : 1 ≤ (max (e - 52) (-1074) + 1074).toNat := by omega
  refine Nat.le_min.2 ⟨?_, ?_⟩
  · exact (Nat.le_mul_of_pos_left _ hexponent).trans (Nat.le_add_right _ _)
  · exact Nat.le_mul_of_pos_left _ (by decide)

/-- **A positive whole number within the doubles has a double that is not zero.** -/
theorem ofInt_bne_zero {n : Int} (hpos : 0 < n)
    (hfinite : Magnitude.ofFloat (ofInt n) ≠ .infinite) : (ofInt n == 0.0) = false := by
  have hlow : twoPow 52 ≤ nearestBits n.natAbs 1 := le_nearestBits Nat.one_pos (by omega)
  have hhigh : nearestBits n.natAbs 1 < 2047 * twoPow 52 := by
    rw [ofInt, Ne, nearest_eq_infinite_iff Nat.one_pos, ← le_nearestBits_iff Nat.one_pos] at hfinite
    exact Nat.not_le.1 hfinite
  have hsign : decide (n < 0) = false := by simpa using hpos.le
  have hbits : (UInt64.ofNat (nearestBits n.natAbs 1)).toNat = nearestBits n.natAbs 1 := by
    rw [UInt64.toNat_ofNat']
    refine Nat.mod_eq_of_lt (hhigh.trans ?_)
    decide
  have hquotient : nearestBits n.natAbs 1 / twoPow 52 < 2047 :=
    Nat.div_lt_of_lt_mul (by rwa [Nat.mul_comm])
  have hpositive : 0 < nearestBits n.natAbs 1 / twoPow 52 := Nat.div_pos hlow (twoPow_pos 52)
  have hfield : nearestBits n.natAbs 1 / twoPow 52 % twoPow 11 = nearestBits n.natAbs 1 / twoPow 52 :=
    Nat.mod_eq_of_lt (hquotient.trans (by decide))
  rw [ofInt, nearest, hsign]
  refine ofBits_bne_zero ?_ ?_
  all_goals
    rw [show (if false = true then twoPow 63 else 0) = 0 from rfl, Nat.add_zero, hbits, hfield]
    omega

end GrammarSuite.Decimal

namespace GrammarSuite.Json.Number

/-- A whole number has its nearest double, or it is large and beyond the doubles. -/
theorem toDouble_whole (n : Int) :
    ((whole n).toDouble = .ok (Decimal.ofInt n) ∧
        Decimal.Magnitude.ofFloat (Decimal.ofInt n) ≠ .infinite) ∨
      ((whole n).toDouble = .error .beyondDoubles ∧ Decimal.finiteBound ≤ n.natAbs) := by
  rw [toDouble]
  split
  · rename_i hinfinite
    refine .inr ⟨rfl, Nat.not_lt.1 fun hsmall => ?_⟩
    exact Decimal.nearest_ne_infinite (by rwa [Nat.one_mul]) hinfinite
  · exact .inl ⟨rfl, ‹_›⟩

end GrammarSuite.Json.Number
