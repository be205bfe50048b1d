import Mathlib
import GrammarSuite.Proofs.Decimal.Shortest
import GrammarSuite.Text.Double

/-!
# Doubles by their bit patterns

A double is known from its bit pattern: the sign, and the rest, which is the pattern of a magnitude.
So the double nearest to a quotient is a given one if the quotient lies in its interval, and the
same holds of a decimal that is read. The infinite doubles and the one that is no number have each a
pattern of their own.

## Main results

* `isMagnitude_of_finite`: the magnitude of a finite double and its bit pattern
* `nearest_eq`: a quotient in the interval of a double has this double
* `eq_infinite`, `eq_undefined`: the doubles that are not finite
* `Text.ofDecimal_eq`: a decimal in the interval of a double is read as this double
-/

namespace GrammarSuite.Decimal

open Float.Model

open Float.Model.UnpackedFloat (unpackExponent unpackMantissa packedNaN)

variable {x : Float} {m : Nat} {q : Int}

/-! ## Sign and rest -/

/-- The bit pattern of a double is that of its magnitude, with the sign in front. -/
theorem toNat_toBits (x : Float) :
    x.toBits.toNat = x.toBits.toNat % twoPow 63 + if isNegative x then twoPow 63 else 0 := by
  have hlt : x.toBits.toNat < twoPow 64 := x.toBits.toNat_lt
  have hdouble : twoPow 64 = 2 * twoPow 63 := by decide
  have hshift : (x.toBits >>> 63).toNat = x.toBits.toNat / twoPow 63 := by
    rw [UInt64.toNat_shiftRight, Nat.shiftRight_eq_div_pow]
    rfl
  have hsign : isNegative x = true ↔ x.toBits.toNat / twoPow 63 = 1 := by
    rw [isNegative, beq_iff_eq, ← UInt64.toNat_inj, hshift]
    rfl
  have hpos := twoPow_pos 63
  have hsplit := Nat.mod_add_div x.toBits.toNat (twoPow 63)
  have hquotient : x.toBits.toNat / twoPow 63 < 2 :=
    Nat.div_lt_of_lt_mul (by rw [Nat.mul_comm, ← hdouble]; exact hlt)
  split
  · rename_i h
    rw [hsign.1 h, Nat.mul_one] at hsplit
    exact hsplit.symm
  · rename_i h
    have hzero : x.toBits.toNat / twoPow 63 = 0 := by
      have := mt hsign.2 h
      omega
    rw [hzero, Nat.mul_zero] at hsplit
    exact hsplit.symm

/-- The double nearest to a quotient is known from its bit pattern. -/
theorem nearest_eq_of_bits {num den : Nat} (h : nearestBits num den = x.toBits.toNat % twoPow 63) :
    nearest (isNegative x) num den = x := by
  rw [nearest, h, ← toNat_toBits, UInt64.ofNat_toNat, Float.ofBits_toBits]

/-! ## The kinds of doubles -/

/-- The rest of a bit pattern are the field of the exponent and the fraction. -/
theorem toNat_mod (n : Nat) :
    n % twoPow 63 = n / twoPow 52 % twoPow 11 * twoPow 52 + n % twoPow 52 := by
  have hpow : twoPow 63 = twoPow 52 * twoPow 11 := by decide
  rw [hpow, Nat.mod_mul, Nat.mul_comm (twoPow 52), Nat.add_comm]

/-- The magnitude of a finite double and its bit pattern. -/
theorem bits_of_finite (h : Magnitude.ofFloat x = .finite m q) :
    x.toBits.toNat % twoPow 63 = (q + 1074).toNat * twoPow 52 + m ∧
      (m = 0 → q = -1074) ∧ (m ≠ 0 → IsMagnitude m q) := by
  have hfraction : x.toBits.toNat % twoPow 52 < 2 ^ 52 := Nat.mod_lt _ (twoPow_pos 52)
  have hbiased : x.toBits.toNat / twoPow 52 % twoPow 11 < 2048 := Nat.mod_lt _ (twoPow_pos 11)
  have hfifty : twoPow 52 = 2 ^ 52 := rfl
  unfold Magnitude.ofFloat at h
  dsimp only at h
  rw [toNat_mod]
  generalize x.toBits.toNat % twoPow 52 = fraction at h hfraction ⊢
  generalize x.toBits.toNat / twoPow 52 % twoPow 11 = biased at h hbiased ⊢
  split at h
  · rename_i hzero
    obtain ⟨rfl, rfl⟩ := Magnitude.finite.inj h
    refine ⟨by simp [hzero], fun _ => rfl, fun hm => ?_⟩
    exact ⟨Nat.pos_of_ne_zero hm, by omega, le_rfl, by omega, .inr rfl⟩
  · rename_i hzero
    split at h
    · split at h <;> cases h
    · rename_i hfull
      obtain ⟨rfl, rfl⟩ := Magnitude.finite.inj h
      refine ⟨?_, fun hm => by omega, fun _ => ⟨by omega, by omega, by omega, by omega, ?_⟩⟩
      · -- The hidden bit is carried into the exponent.
        have hsteps : biased = ((biased : Int) - 1075 + 1074).toNat + 1 := by omega
        conv_lhs => rw [hsteps, Nat.add_mul, Nat.one_mul]
        omega
      · exact .inl (by omega)

/-- **A quotient in the interval of a double has this double.** -/
theorem nearest_eq {num den : Nat} (h : Magnitude.ofFloat x = .finite m q) (hm : m ≠ 0)
    (hden : 0 < den) (hheld : Interval.Holds m q (num / den)) :
    nearest (isNegative x) num den = x := by
  obtain ⟨hbits, -, hmagnitude⟩ := bits_of_finite h
  exact nearest_eq_of_bits ((nearestBits_of_holds hden (hmagnitude hm) hheld).trans hbits.symm)

/-- The double of zero is zero, of either sign. -/
theorem nearest_zero (h : Magnitude.ofFloat x = .finite 0 q) : nearest (isNegative x) 0 1 = x := by
  obtain ⟨hbits, hq, -⟩ := bits_of_finite h
  rw [hq rfl] at hbits
  exact nearest_eq_of_bits hbits.symm

/-- The fields of a double that is not finite. -/
theorem fields_of_full {b : Bool}
    (h : Magnitude.ofFloat x = if b then .infinite else .undefined) :
    x.toBits.toNat / twoPow 52 % twoPow 11 = 2047 ∧
      (x.toBits.toNat % twoPow 52 = 0 ↔ b = true) := by
  unfold Magnitude.ofFloat at h
  dsimp only at h
  split at h
  · cases b <;> cases h
  · split at h
    · rename_i hfull
      refine ⟨hfull, ?_⟩
      cases b <;> split at h <;> simp_all
    · cases b <;> cases h

/-- An infinite double is known by its sign. -/
theorem eq_infinite (h : Magnitude.ofFloat x = .infinite) : Text.infinite (isNegative x) = x := by
  obtain ⟨hfull, hfraction⟩ := fields_of_full (b := true) h
  refine nearest_eq_of_bits ?_
  rw [toNat_mod, hfull, hfraction.2 rfl]
  decide +kernel

/-- There is one double that is no number. -/
theorem eq_undefined (h : Magnitude.ofFloat x = .undefined) :
    Float.ofBits 0x7FF8000000000000 = x := by
  obtain ⟨hfull, hfraction⟩ := fields_of_full (b := false) h
  have hexponent : @unpackExponent Format.binary64 x.toBits.toBitVec = -1#_ :=
    BitVec.eq_of_toNat_eq ((toNat_unpackExponent _).trans hfull)
  have hmantissa : @unpackMantissa Format.binary64 x.toBits.toBitVec ≠ 0#_ := by
    intro hzero
    have hnat := congrArg BitVec.toNat hzero
    simp only [unpackMantissa] at hnat
    exact absurd (hfraction.1 hnat) (by decide)
  have hbits : x.toBits.toBitVec = packedNaN Format.binary64 :=
    x.toModel.valid.eq_packedNaN hexponent hmantissa
  have hpattern : x.toBits = 0x7FF8000000000000 := UInt64.toBitVec_inj.1 (hbits.trans (by decide))
  rw [← hpattern, Float.ofBits_toBits]

end GrammarSuite.Decimal

namespace GrammarSuite.Text

open GrammarSuite.Decimal

/-! ## Decimals that are read -/

theorem foldl_digits (ds : List Nat) (a : Nat) :
    ds.foldl (fun n d => n * 10 + d) a = a * 10 ^ ds.length + ofDigits ds := by
  induction ds generalizing a with
  | nil => simp [ofDigits]
  | cons d ds ih =>
    rw [ofDigits, List.foldl_cons, List.foldl_cons, ih, ih (0 * 10 + d), List.length_cons]
    ring

@[simp] theorem ofDigits_nil : ofDigits [] = 0 := rfl

theorem ofDigits_cons (d : Nat) (ds : List Nat) :
    ofDigits (d :: ds) = d * 10 ^ ds.length + ofDigits ds := by
  rw [ofDigits, List.foldl_cons, foldl_digits, Nat.zero_mul, Nat.zero_add]

theorem ofDigits_append (ds es : List Nat) :
    ofDigits (ds ++ es) = ofDigits ds * 10 ^ es.length + ofDigits es := by
  rw [ofDigits, List.foldl_append, foldl_digits]
  rfl

/-- Zeros in front do not count. -/
theorem ofDigits_dropWhile (ds : List Nat) : ofDigits (ds.dropWhile (· == 0)) = ofDigits ds := by
  induction ds with
  | nil => rfl
  | cons d ds ih =>
    by_cases hd : d = 0
    · rw [List.dropWhile_cons_of_pos (by simpa using hd), ih, ofDigits_cons, hd, Nat.zero_mul,
        Nat.zero_add]
    · rw [List.dropWhile_cons_of_neg (by simpa using hd)]

theorem ofDigits_lt {ds : List Nat} (h : ∀ d ∈ ds, d < 10) : ofDigits ds < 10 ^ ds.length := by
  induction ds with
  | nil => simp
  | cons d ds ih =>
    obtain ⟨hd, hds⟩ := List.forall_mem_cons.1 h
    have := ih hds
    have : d * 10 ^ ds.length ≤ 9 * 10 ^ ds.length := Nat.mul_le_mul_right _ (by omega)
    rw [ofDigits_cons, List.length_cons, Nat.pow_succ]
    omega

/-- A number whose first digit is not zero is at least the power of ten of that place. -/
theorem le_ofDigits_dropWhile {ds : List Nat} (h : ofDigits ds ≠ 0) :
    10 ^ ((ds.dropWhile (· == 0)).length - 1) ≤ ofDigits ds := by
  rw [← ofDigits_dropWhile ds] at h ⊢
  rcases hsignificant : ds.dropWhile (· == 0) with _ | ⟨d, rest⟩
  · simp [hsignificant] at h
  · have hd : d ≠ 0 := by
      have := List.head?_dropWhile_not (· == 0) ds
      simpa [hsignificant] using this
    rw [ofDigits_cons, List.length_cons, Nat.add_sub_cancel]
    exact (Nat.le_mul_of_pos_left _ (Nat.pos_of_ne_zero hd)).trans (Nat.le_add_right _ _)

/-- A number in the interval of a magnitude is neither too small nor too large for a double. -/
theorem bounds_of_holds {m : Nat} {q : Int} {r : ℚ} (hmq : IsMagnitude m q)
    (h : Interval.Holds m q r) : (10 : ℚ) ^ (-400 : Int) < r ∧ r < 10 ^ (400 : Int) := by
  obtain ⟨⟨hlow, hhigh⟩, -⟩ := h.isNearest hmq.pos
  have hpos := two_zpow_pos q
  have hunits : r = r / 2 ^ q * 2 ^ q := by field_simp
  have hm : (m + 1 : ℚ) ≤ 2 ^ 53 := by exact_mod_cast hmq.lt
  have hm' : (1 : ℚ) ≤ m := by exact_mod_cast hmq.pos
  have hpower : ∀ k n : Nat, k ≤ 3 * n → (2 : ℚ) ^ (k : Int) ≤ 10 ^ (n : Int) := fun k n hk => by
    rw [zpow_natCast, zpow_natCast, ← cast_twoPow, ← cast_tenPow]
    exact_mod_cast twoPow_le_tenPow hk
  constructor
  · calc (10 : ℚ) ^ (-400 : Int) < 10 ^ (-399 : Int) :=
          zpow_lt_zpow_right₀ (by norm_num) (by norm_num)
      _ = (10 ^ ((399 : Nat) : Int))⁻¹ := by rw [← zpow_neg]; rfl
      _ ≤ (2 ^ ((1075 : Nat) : Int))⁻¹ :=
          inv_anti₀ (two_zpow_pos _) (hpower 1075 399 (by decide))
      _ = 2 ^ (-1075 : Int) := by rw [← zpow_neg]; rfl
      _ ≤ 2 ^ (q - 1) := zpow_le_zpow_right₀ one_le_two (by have := hmq.least; omega)
      _ = 1 / 2 * 2 ^ q := by rw [zpow_sub_one₀ two_ne_zero]; ring
      _ ≤ r / 2 ^ q * 2 ^ q := mul_le_mul_of_nonneg_right (by linarith) hpos.le
      _ = r := hunits.symm
  · calc r = r / 2 ^ q * 2 ^ q := hunits
      _ ≤ 2 ^ (53 : Int) * 2 ^ q := mul_le_mul_of_nonneg_right (by norm_num at hm ⊢; linarith) hpos.le
      _ = 2 ^ (53 + q) := (zpow_add₀ two_ne_zero _ _).symm
      _ ≤ 2 ^ ((1024 : Nat) : Int) := zpow_le_zpow_right₀ one_le_two (by have := hmq.le; omega)
      _ ≤ 10 ^ ((342 : Nat) : Int) := hpower 1024 342 (by decide)
      _ < 10 ^ (400 : Int) := zpow_lt_zpow_right₀ (by norm_num) (by norm_num)

/-- A decimal that exceeds a power of ten has its point at most so far in front of its digits. -/
theorem lt_size_add {n size : Nat} {e k : Int} (hn : n < 10 ^ size)
    (h : (10 : ℚ) ^ k < n * 10 ^ e) : k < size + e := by
  have hcast : (n : ℚ) ≤ 10 ^ (size : Int) := by
    rw [zpow_natCast]
    exact_mod_cast hn.le
  have hpower : (10 : ℚ) ^ k < 10 ^ (size + e) := by
    rw [zpow_add₀ (by norm_num)]
    exact h.trans_le (mul_le_mul_of_nonneg_right hcast (ten_zpow_pos e).le)
  exact (zpow_lt_zpow_iff_right₀ (by norm_num)).1 hpower

/-- A decimal that is below a power of ten has its point at most so far behind its first digit. -/
theorem size_add_le {n size : Nat} {e k : Int} (hn : 10 ^ (size - 1) ≤ n)
    (h : n * 10 ^ e < (10 : ℚ) ^ k) : size + e ≤ k := by
  have hcast : (10 : ℚ) ^ ((size - 1 : Nat) : Int) ≤ n := by
    rw [zpow_natCast]
    exact_mod_cast hn
  have hpower : (10 : ℚ) ^ (((size - 1 : Nat) : Int) + e) < 10 ^ k := by
    rw [zpow_add₀ (by norm_num)]
    exact (mul_le_mul_of_nonneg_right hcast (ten_zpow_pos e).le).trans_lt h
  have hless := (zpow_lt_zpow_iff_right₀ (by norm_num)).1 hpower
  omega

/-- **A decimal in the interval of a double is read as this double.** -/
theorem ofDecimal_eq {x : Float} {m : Nat} {q : Int} {ds : List Nat} {places : Nat} {exponent : Int}
    (h : Magnitude.ofFloat x = .finite m q) (hm : m ≠ 0) (hds : ∀ d ∈ ds, d < 10)
    (hheld : Interval.Holds m q (ofDigits ds * 10 ^ (exponent - places))) :
    ofDecimal (isNegative x) ds places exponent = x := by
  have hmq : IsMagnitude m q := (bits_of_finite h).2.2 hm
  obtain ⟨hsmall, hlarge⟩ := bounds_of_holds hmq hheld
  have hne : ofDigits ds ≠ 0 := by
    intro hzero
    rw [hzero, Nat.cast_zero, zero_mul] at hsmall
    exact absurd hsmall (not_lt.2 (ten_zpow_pos _).le)
  have hleast := le_ofDigits_dropWhile hne
  have hgreatest := @ofDigits_lt (ds.dropWhile (· == 0)) fun d hd =>
    hds d (List.dropWhile_subset _ hd)
  rw [ofDigits_dropWhile] at hgreatest
  unfold ofDecimal
  dsimp only
  rw [ofDigits_dropWhile]
  generalize (ds.dropWhile (· == 0)).length = size at hleast hgreatest ⊢
  generalize exponent - (places : Int) = e at hheld hsmall hlarge ⊢
  generalize ofDigits ds = n at hne hleast hgreatest hheld hsmall hlarge ⊢
  -- The number of digits in front of the point is known from the size of the decimal.
  have htop : ¬ (size : Int) + e < -400 := (lt_size_add hgreatest hsmall).not_gt
  have hbottom : ¬ 400 < (size : Int) + e := not_lt.2 (size_add_le hleast hlarge)
  rw [if_neg (by simp [hne, htop]), if_neg hbottom]
  split
  · rename_i hsign
    refine nearest_eq h hm Nat.one_pos ?_
    rw [Nat.cast_one, div_one, Nat.cast_mul, cast_tenPow]
    rwa [← Int.toNat_of_nonneg hsign, zpow_natCast] at hheld
  · rename_i hsign
    refine nearest_eq h hm (tenPow_pos _) ?_
    have hneg : e = -((-e).toNat : Int) := by omega
    rw [hneg, zpow_neg, zpow_natCast, ← div_eq_mul_inv, ← cast_tenPow] at hheld
    exact hheld

end GrammarSuite.Text
