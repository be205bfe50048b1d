import Mathlib.Data.Nat.Cast.Order.Field
import Mathlib.Tactic.Linarith
import Mathlib.Tactic.NormNum
import GrammarSuite.Decimal.Shortest
import GrammarSuite.Proofs.Decimal.Nearest

/-!
# Shortest decimals round back

The double nearest to a quotient is known from the interval around it: every quotient in the
interval of a magnitude is rounded to this magnitude. The search for the shortest decimal ends with
a point of the interval, since the grid of the last digit is finer than the interval is wide. So the
shortest decimal of a double is rounded to the double it was made from.

## Main definitions

* `IsMagnitude`: the significands and exponents of doubles that are not zero
* `Interval.Holds`: a rational number lies in an interval

## Main results

* `nearestBits_of_holds`: a quotient in the interval of a magnitude is rounded to it
* `shortest_holds`: the shortest decimal lies in the interval
-/

namespace GrammarSuite.Decimal

/-- The significand and the exponent of a double that is not zero: the significand has fifty-three
bits, or fewer at the least exponent. -/
structure IsMagnitude (m : Nat) (q : Int) : Prop where
  pos : 0 < m
  lt : m < 2 ^ 53
  least : -1074 ≤ q
  le : q ≤ 971
  normal : 2 ^ 52 ≤ m ∨ q = -1074

/-- A rational number lies in the interval of the reals that round to `m * 2 ^ q`. -/
def Interval.Holds (m : Nat) (q : Int) (r : ℚ) : Prop :=
  let i := Interval.ofMagnitude m q
  (i.low * 2 ^ (q - 2) ≤ r ∧ r ≤ i.high * 2 ^ (q - 2)) ∧
    (m % 2 = 1 → i.low * 2 ^ (q - 2) < r ∧ r < i.high * 2 ^ (q - 2))

/-! ## Rounding -/

/-- A quotient is rounded to a number that it is within half a unit of, and a tie to the even
one. -/
theorem roundDiv_eq {num den k : Nat} (hden : 0 < den) (hlow : 2 * k * den ≤ 2 * num + den)
    (hhigh : 2 * num ≤ (2 * k + 1) * den)
    (hodd : k % 2 = 1 → 2 * k * den < 2 * num + den ∧ 2 * num < (2 * k + 1) * den) :
    roundDiv num den = k := by
  obtain ⟨quotient, rest, rfl, hlt, hround⟩ := @roundDiv_cases num den hden
  -- The quotient is the number or one less than it.
  have hle : quotient ≤ k := by
    by_contra hgt
    have hmul : (k + 1) * den ≤ quotient * den := Nat.mul_le_mul_right den (by omega)
    rw [Nat.add_mul] at hmul hhigh
    rw [Nat.mul_assoc] at hhigh
    omega
  have hge : k ≤ quotient + 1 := by
    by_contra hgt
    have hmul : (quotient + 2) * den ≤ k * den := Nat.mul_le_mul_right den (by omega)
    rw [Nat.add_mul] at hmul
    rw [Nat.mul_assoc] at hlow
    omega
  obtain rfl | rfl : k = quotient ∨ k = quotient + 1 := by omega
  · rw [Nat.add_mul, Nat.mul_assoc] at hhigh hodd
    omega
  · simp only [Nat.add_mul, Nat.mul_assoc, Nat.one_mul] at hlow hhigh hodd
    omega

/-- A number is nearest to a rational number: within half a unit of it, and closer if it is odd. -/
def IsNearest (k : Nat) (r : ℚ) : Prop :=
  (2 * k - 1 ≤ 2 * r ∧ 2 * r ≤ 2 * k + 1) ∧ (k % 2 = 1 → 2 * k - 1 < 2 * r ∧ 2 * r < 2 * k + 1)

theorem roundDiv_of_isNearest {num den k : Nat} {r : ℚ} (hden : 0 < den) (hr : (num : ℚ) = r * den)
    (h : IsNearest k r) : roundDiv num den = k := by
  obtain ⟨⟨hlow, hhigh⟩, hodd⟩ := h
  have hden' : (0 : ℚ) < den := by exact_mod_cast hden
  refine roundDiv_eq hden ?_ ?_ fun hk => ?_
  · have : (2 * k * den : ℚ) ≤ 2 * num + den := by
      rw [hr]
      nlinarith
    exact_mod_cast this
  · have : (2 * num : ℚ) ≤ (2 * k + 1) * den := by
      rw [hr]
      nlinarith
    exact_mod_cast this
  · obtain ⟨hlow, hhigh⟩ := hodd hk
    have hbelow : (2 * k * den : ℚ) < 2 * num + den := by
      rw [hr]
      nlinarith
    have habove : (2 * num : ℚ) < (2 * k + 1) * den := by
      rw [hr]
      nlinarith
    exact ⟨by exact_mod_cast hbelow, by exact_mod_cast habove⟩

/-- The significand of a quotient at an exponent is the number of units nearest to it. -/
theorem significand_eq {num den k : Nat} {e : Int} (hden : 0 < den)
    (h : IsNearest k (num / den / 2 ^ e)) :
    (if 0 ≤ e then roundDiv num (den <<< e.toNat) else roundDiv (num <<< (-e).toNat) den) = k := by
  have hden' : (den : ℚ) ≠ 0 := by exact_mod_cast hden.ne'
  have hpow : ∀ n : Nat, (2 : ℚ) ^ n ≠ 0 := fun n => pow_ne_zero n two_ne_zero
  split
  · rename_i hsign
    have hunit : (2 : ℚ) ^ e = 2 ^ e.toNat := by
      conv_lhs => rw [← Int.toNat_of_nonneg hsign, zpow_natCast]
    rw [hunit] at h
    rw [Nat.shiftLeft_eq]
    refine roundDiv_of_isNearest (Nat.mul_pos hden (Nat.two_pow_pos _)) ?_ h
    have := hpow e.toNat
    push_cast
    field_simp
  · rename_i hsign
    have hunit : (2 : ℚ) ^ e = (2 ^ (-e).toNat)⁻¹ := by
      rw [← zpow_natCast, ← zpow_neg, Int.toNat_of_nonneg (by omega), neg_neg]
    rw [hunit] at h
    rw [Nat.shiftLeft_eq]
    refine roundDiv_of_isNearest hden ?_ h
    have := hpow (-e).toNat
    push_cast
    field_simp

/-! ## The interval of a magnitude -/

variable {m : Nat} {q : Int} {r : ℚ}

theorem two_zpow_pos (n : Int) : (0 : ℚ) < 2 ^ n := zpow_pos two_pos n

theorem two_zpow_sub_two (q : Int) : (2 : ℚ) ^ (q - 2) = 2 ^ q / 4 := by
  rw [zpow_sub₀ two_ne_zero]
  norm_num

theorem cast_low (m : Nat) (hm : 0 < m) (q : Int) :
    ((Interval.ofMagnitude m q).low : ℚ) =
      if m = twoPow 52 ∧ -1074 < q then 4 * (m : ℚ) - 1 else 4 * m - 2 := by
  unfold Interval.ofMagnitude
  dsimp only
  split
  · rw [Nat.cast_sub (by omega)]
    push_cast
    rfl
  · rw [Nat.cast_sub (by omega)]
    push_cast
    rfl

theorem cast_high (m : Nat) (q : Int) : ((Interval.ofMagnitude m q).high : ℚ) = 4 * m + 2 := by
  simp [Interval.ofMagnitude]

/-- A number in the interval of a magnitude is nearest to its significand. -/
theorem Interval.Holds.isNearest (h : Interval.Holds m q r) (hm : 0 < m) :
    IsNearest m (r / 2 ^ q) := by
  have hpos := two_zpow_pos q
  have hlow : (4 * m - 2 : ℚ) ≤ (Interval.ofMagnitude m q).low := by
    rw [cast_low m hm]
    split <;> linarith
  obtain ⟨⟨hbelow, habove⟩, hodd⟩ := h
  simp only [cast_high, two_zpow_sub_two] at hbelow habove hodd
  have hscale : r = r / 2 ^ q * 2 ^ q := by field_simp
  generalize r / 2 ^ q = u at hscale
  subst hscale
  refine ⟨⟨?_, ?_⟩, fun hm => ?_⟩
  · nlinarith
  · nlinarith
  · obtain ⟨hbelow, habove⟩ := hodd hm
    constructor
    · nlinarith
    · nlinarith

/-- A quotient below a power of two has a lower exponent. -/
theorem floorLog2_lt {num den : Nat} {k : Int} (hnum : num ≠ 0) (hden : 0 < den)
    (h : (num / den : ℚ) < 2 ^ k) : floorLog2 num den < k := by
  have hden' : (0 : ℚ) < den := by exact_mod_cast hden
  obtain ⟨hlow, -⟩ := floorLog2_bounds hnum hden.ne'
  rw [mul_comm, ← le_div_iff₀ hden'] at hlow
  exact (zpow_lt_zpow_iff_right₀ one_lt_two).1 (hlow.trans_lt h)

/-- A quotient that reaches a power of two has its exponent at least. -/
theorem le_floorLog2 {num den : Nat} {k : Int} (hnum : num ≠ 0) (hden : 0 < den)
    (h : (2 ^ k : ℚ) ≤ num / den) : k ≤ floorLog2 num den := by
  have hden' : (0 : ℚ) < den := by exact_mod_cast hden
  obtain ⟨-, hhigh⟩ := floorLog2_bounds hnum hden.ne'
  rw [mul_comm, ← div_lt_iff₀ hden'] at hhigh
  have := (zpow_lt_zpow_iff_right₀ (one_lt_two (α := ℚ))).1 (h.trans_lt hhigh)
  omega

section

variable {num den : Nat} {k : Int}

/-- A quotient that is less than a power of two in other units. -/
theorem floorLog2_lt_of_units (hnum : num ≠ 0) (hden : 0 < den)
    (h : (num / den / 2 ^ q : ℚ) < 2 ^ k) : floorLog2 num den < k + q := by
  refine floorLog2_lt hnum hden ?_
  rwa [div_lt_iff₀ (two_zpow_pos q), ← zpow_add₀ two_ne_zero] at h

/-- A quotient that reaches a power of two in other units. -/
theorem le_floorLog2_of_units (hnum : num ≠ 0) (hden : 0 < den)
    (h : (2 ^ k : ℚ) ≤ num / den / 2 ^ q) : k + q ≤ floorLog2 num den := by
  refine le_floorLog2 hnum hden ?_
  rwa [le_div_iff₀ (two_zpow_pos q), ← zpow_add₀ two_ne_zero] at h

/-- The bit pattern of a quotient, from its exponent and the number of units nearest to it. -/
theorem nearestBits_of_isNearest {e : Int} {n : Nat} (hnum : num ≠ 0) (hden : 0 < den)
    (hexponent : max (floorLog2 num den - 52) (-1074) = e) (h : IsNearest n (num / den / 2 ^ e)) :
    nearestBits num den = min ((e + 1074).toNat * twoPow 52 + n) (2047 * twoPow 52) := by
  rw [nearestBits, if_neg hnum]
  dsimp only
  rw [hexponent, significand_eq hden h]

end

/-- Just below a power of two the interval is only half as wide, so that a number in it is nearest
to this power also in units of half the size. -/
theorem Interval.Holds.isNearest_below (h : Interval.Holds (2 ^ 52) q r) (hq : -1074 < q)
    (hbelow : r / 2 ^ q < 2 ^ 52) :
    IsNearest (2 ^ 53) (r / 2 ^ (q - 1)) ∧ 2 ^ 51 ≤ r / 2 ^ q := by
  have hpos := two_zpow_pos q
  have hlow := h.1.1
  rw [cast_low _ (by decide), if_pos ⟨rfl, hq⟩, two_zpow_sub_two] at hlow
  push_cast at hlow
  have htwice : r / 2 ^ (q - 1) = 2 * (r / 2 ^ q) := by
    rw [zpow_sub_one₀ two_ne_zero]
    field_simp
  have hscale : r = r / 2 ^ q * 2 ^ q := by field_simp
  rw [htwice]
  generalize r / 2 ^ q = u at hbelow hscale ⊢
  subst hscale
  have hquarter : (2 ^ 52 - 1 / 4 : ℚ) ≤ u := by nlinarith
  refine ⟨⟨⟨?_, ?_⟩, by norm_num⟩, by linarith⟩
  · push_cast
    linarith
  · push_cast
    linarith

/-- **A quotient in the interval of a magnitude is rounded to this magnitude.** -/
theorem nearestBits_of_holds {num den : Nat} (hden : 0 < den) (hmq : IsMagnitude m q)
    (h : Interval.Holds m q (num / den)) :
    nearestBits num den = (q + 1074).toNat * twoPow 52 + m := by
  obtain ⟨hpos, hlt, hleast, hle, hnormal⟩ := hmq
  have hnearest := h.isNearest hpos
  obtain ⟨⟨hbelow, habove⟩, -⟩ := id hnearest
  have hm : (m + 1 : ℚ) ≤ 2 ^ 53 := by exact_mod_cast hlt
  have hm' : (1 : ℚ) ≤ m := by exact_mod_cast hpos
  have hnum : num ≠ 0 := by
    rintro rfl
    simp only [Nat.cast_zero, zero_div] at hbelow
    linarith
  have hbinade : floorLog2 num den < 53 + q :=
    floorLog2_lt_of_units hnum hden (by norm_num at hm ⊢; linarith)
  have hfifty : twoPow 52 = 2 ^ 52 := rfl
  -- The quotient is in the binade of the magnitude, unless it is just below a power of two.
  by_cases hcase : (num / den / 2 ^ q : ℚ) < 2 ^ 52 ∧ -1074 < q
  · obtain ⟨hsmall, hq⟩ := hcase
    obtain rfl : m = 2 ^ 52 := by
      have hlower : 2 ^ 52 ≤ m := hnormal.resolve_right (by omega)
      have hupper : (m : ℚ) < 2 ^ 52 + 1 := by linarith
      have hupper' : m < 2 ^ 52 + 1 := by exact_mod_cast hupper
      omega
    obtain ⟨hround, hlarge⟩ := h.isNearest_below hq hsmall
    have hexponent : max (floorLog2 num den - 52) (-1074) = q - 1 := by
      have hunder : floorLog2 num den < 52 + q := floorLog2_lt_of_units hnum hden hsmall
      have hover : 51 + q ≤ floorLog2 num den := le_floorLog2_of_units hnum hden hlarge
      omega
    have hcarry : (q + 1074).toNat = (q - 1 + 1074).toNat + 1 := by omega
    rw [nearestBits_of_isNearest hnum hden hexponent hround, hcarry, hfifty, Nat.add_mul]
    omega
  · have hexponent : max (floorLog2 num den - 52) (-1074) = q := by
      rcases not_and_or.1 hcase with hlarge | hq
      · have hover : 52 + q ≤ floorLog2 num den :=
          le_floorLog2_of_units hnum hden (not_lt.1 hlarge)
        omega
      · omega
    rw [nearestBits_of_isNearest hnum hden hexponent hnearest, hfifty]
    omega

/-! ## The search -/

theorem ten_zpow_pos (n : Int) : (0 : ℚ) < 10 ^ n := zpow_pos (by norm_num) n

/-- A power is the quotient of those of the positive and of the negative part of its exponent. -/
theorem zpow_eq_div {b : ℚ} (hb : b ≠ 0) (n : Int) : b ^ n = b ^ n.toNat / b ^ (-n).toNat := by
  rw [← zpow_natCast, ← zpow_natCast, ← zpow_sub₀ hb]
  congr 1
  omega

theorem tenPow_pos (n : Nat) : 0 < tenPow n := Nat.pow_pos (by decide)

theorem length_digits_le {n places : Nat} (hplaces : 0 < places) (h : n < tenPow places) :
    (digits n).length ≤ places :=
  (Nat.length_toDigits_le_iff (by decide) hplaces).2 h

theorem twoPow_le_tenPow {k n : Nat} (h : k ≤ 3 * n) : twoPow k ≤ tenPow n :=
  calc 2 ^ k ≤ 2 ^ (3 * n) := Nat.pow_le_pow_right (by decide) h
    _ = (2 ^ 3) ^ n := Nat.pow_mul ..
    _ ≤ 10 ^ n := Nat.pow_le_pow_left (by decide) n

theorem cast_twoPow (n : Nat) : (twoPow n : ℚ) = 2 ^ n := by simp [twoPow]

theorem cast_tenPow (n : Nat) : (tenPow n : ℚ) = 10 ^ n := by simp [tenPow]

/-- The unit of the interval and the step of the grid are to each other as the powers they stand
for. -/
theorem step_mul_eq (q g : Int) :
    ((twoPow (2 - q).toNat * tenPow g.toNat : Nat) : ℚ) * 2 ^ (q - 2) =
      (twoPow (q - 2).toNat * tenPow (-g).toNat : Nat) * 10 ^ g := by
  have htwo : ∀ n : Nat, (2 : ℚ) ^ n ≠ 0 := fun n => pow_ne_zero n two_ne_zero
  have hten : ∀ n : Nat, (10 : ℚ) ^ n ≠ 0 := fun n => pow_ne_zero n (by norm_num)
  rw [zpow_eq_div two_ne_zero, zpow_eq_div (by norm_num : (10 : ℚ) ≠ 0), Int.neg_sub]
  push_cast
  rw [cast_twoPow, cast_twoPow, cast_tenPow, cast_tenPow]
  have := htwo (2 - q).toNat
  have := hten (-g).toNat
  field_simp

theorem unit_pos (q g : Int) : 0 < twoPow (q - 2).toNat * tenPow (-g).toNat :=
  Nat.mul_pos (twoPow_pos _) (tenPow_pos _)

theorem step_pos (q g : Int) : 0 < twoPow (2 - q).toNat * tenPow g.toNat :=
  Nat.mul_pos (twoPow_pos _) (tenPow_pos _)

/-- A point of the grid that the interval contains lies in it. -/
theorem Interval.holds_of_contains {g : Int} {c : Nat}
    (h : (Interval.ofMagnitude m q).contains (twoPow (q - 2).toNat * tenPow (-g).toNat)
      (twoPow (2 - q).toNat * tenPow g.toNat) c = true) :
    Interval.Holds m q (c * 10 ^ g) := by
  have hscale := step_mul_eq q g
  have hunit := unit_pos q g
  generalize twoPow (q - 2).toNat * tenPow (-g).toNat = unit at h hscale hunit
  generalize twoPow (2 - q).toNat * tenPow g.toNat = step at h hscale
  have hunit' : (0 : ℚ) < unit := by exact_mod_cast hunit
  have hpos := two_zpow_pos (q - 2)
  have hpoint : (c * step : ℚ) * 2 ^ (q - 2) = c * 10 ^ g * unit := by
    rw [mul_assoc, hscale]
    ring
  -- Both ends are compared with the point after a change of units.
  have hle : ∀ a : Nat, a * unit ≤ c * step → (a : ℚ) * 2 ^ (q - 2) ≤ c * 10 ^ g := fun a ha => by
    have hcast : (a * unit : ℚ) ≤ c * step := by exact_mod_cast ha
    have := mul_le_mul_of_nonneg_right hcast hpos.le
    rw [hpoint] at this
    exact le_of_mul_le_mul_right (by linarith) hunit'
  have hlt : ∀ a : Nat, a * unit < c * step → (a : ℚ) * 2 ^ (q - 2) < c * 10 ^ g := fun a ha => by
    have hcast : (a * unit : ℚ) < c * step := by exact_mod_cast ha
    have := mul_lt_mul_of_pos_right hcast hpos
    rw [hpoint] at this
    exact lt_of_mul_lt_mul_right (by linarith) hunit'.le
  have hge : ∀ a : Nat, c * step ≤ a * unit → c * 10 ^ g ≤ (a : ℚ) * 2 ^ (q - 2) := fun a ha => by
    have hcast : (c * step : ℚ) ≤ a * unit := by exact_mod_cast ha
    have := mul_le_mul_of_nonneg_right hcast hpos.le
    rw [hpoint] at this
    exact le_of_mul_le_mul_right (by linarith) hunit'
  have hgt : ∀ a : Nat, c * step < a * unit → c * 10 ^ g < (a : ℚ) * 2 ^ (q - 2) := fun a ha => by
    have hcast : (c * step : ℚ) < a * unit := by exact_mod_cast ha
    have := mul_lt_mul_of_pos_right hcast hpos
    rw [hpoint] at this
    exact lt_of_mul_lt_mul_right (by linarith) hunit'.le
  unfold contains at h
  by_cases hclosed : (Interval.ofMagnitude m q).closed = true
  · rw [if_pos hclosed, Bool.and_eq_true, decide_eq_true_eq, decide_eq_true_eq] at h
    refine ⟨⟨hle _ h.1, hge _ h.2⟩, fun hodd => ?_⟩
    simp [ofMagnitude, hodd] at hclosed
  · rw [if_neg hclosed, Bool.and_eq_true, decide_eq_true_eq, decide_eq_true_eq] at h
    exact ⟨⟨(hlt _ h.1).le, (hgt _ h.2).le⟩, fun _ => ⟨hlt _ h.1, hgt _ h.2⟩⟩

/-- A rounded quotient is one of the two neighbours of the quotient. -/
theorem roundDiv_eq_or (num den : Nat) :
    roundDiv num den = num / den ∨ roundDiv num den = num / den + 1 := by
  unfold roundDiv
  dsimp only
  split
  · exact .inl rfl
  · split
    · exact .inr rfl
    · rcases Nat.mod_two_eq_zero_or_one (num / den) with h | h
      · exact .inl (by rw [h, Nat.add_zero])
      · exact .inr (by rw [h])

/-- What is found on a grid lies in the interval. -/
theorem Interval.holds_of_onGrid {g : Int} {c : Nat}
    (h : (Interval.ofMagnitude m q).onGrid q g = some c) : Interval.Holds m q (c * 10 ^ g) := by
  unfold onGrid at h
  dsimp only at h
  split at h
  · rename_i hbelow habove
    obtain rfl := Option.some.inj h
    rcases roundDiv_eq_or ((Interval.ofMagnitude m q).value *
      (twoPow (q - 2).toNat * tenPow (-g).toNat)) (twoPow (2 - q).toNat * tenPow g.toNat)
      with heq | heq
    · rw [heq]
      exact holds_of_contains hbelow
    · rw [heq]
      exact holds_of_contains habove
  · rename_i hbelow _
    obtain rfl := Option.some.inj h
    exact holds_of_contains hbelow
  · rename_i _ habove
    obtain rfl := Option.some.inj h
    exact holds_of_contains habove
  · cases h

/-- A grid that is as fine as the interval has a point in it. -/
theorem Interval.isSome_onGrid {g : Int} (hm : 0 < m) (hg : (10 : ℚ) ^ g ≤ 2 ^ (q - 2)) :
    ((Interval.ofMagnitude m q).onGrid q g).isSome = true := by
  have hscale := step_mul_eq q g
  have hunit := unit_pos q g
  have hstep := step_pos q g
  unfold onGrid
  dsimp only
  generalize twoPow (q - 2).toNat * tenPow (-g).toNat = unit at hscale hunit
  generalize twoPow (2 - q).toNat * tenPow g.toNat = step at hscale hstep
  have hle : step ≤ unit := by
    have hpos := two_zpow_pos (q - 2)
    have : (step : ℚ) * 2 ^ (q - 2) ≤ unit * 2 ^ (q - 2) := by
      rw [hscale]
      exact mul_le_mul_of_nonneg_left hg (Nat.cast_nonneg _)
    exact_mod_cast le_of_mul_le_mul_right this hpos
  -- The point below the value is less than one unit away from it.
  have hbelow : (Interval.ofMagnitude m q).contains unit step
      ((Interval.ofMagnitude m q).value * unit / step) = true := by
    have hvalue : (Interval.ofMagnitude m q).value = 4 * m := rfl
    have hhigh : (Interval.ofMagnitude m q).high = 4 * m + 2 := rfl
    have hlow : (Interval.ofMagnitude m q).low + 1 ≤ 4 * m := by
      simp only [ofMagnitude]
      split <;> omega
    have hdown : 4 * m * unit / step * step ≤ 4 * m * unit := Nat.div_mul_le_self _ _
    have hup : 4 * m * unit < 4 * m * unit / step * step + step := by
      have := Nat.lt_div_mul_add (a := 4 * m * unit) hstep
      exact this
    have hnext : (Interval.ofMagnitude m q).low * unit + unit ≤ 4 * m * unit := by
      calc (Interval.ofMagnitude m q).low * unit + unit
          = ((Interval.ofMagnitude m q).low + 1) * unit := by ring
        _ ≤ 4 * m * unit := Nat.mul_le_mul_right _ hlow
    have htop : 4 * m * unit < (4 * m + 2) * unit := Nat.mul_lt_mul_of_pos_right (by omega) hunit
    have hstrict : (Interval.ofMagnitude m q).low * unit < 4 * m * unit / step * step ∧
        4 * m * unit / step * step < (4 * m + 2) * unit := by omega
    unfold contains
    rw [hvalue, hhigh]
    split
    · simp [hstrict.1.le, hstrict.2.le]
    · simp [hstrict.1, hstrict.2]
  rw [hbelow]
  split <;> simp_all

/-- A search that meets a grid with a point in the interval finds one. -/
theorem Interval.exists_search (i : Interval) {n : Nat} {g : Int} {k : Nat} (hk : k < n)
    (h : (i.onGrid q (g - k)).isSome = true) :
    ∃ c g', i.search q n g = (c, g') ∧ i.onGrid q g' = some c := by
  induction n generalizing g k with
  | zero => omega
  | succ n ih =>
    rw [search]
    split
    · rename_i c hc
      exact ⟨c, g, rfl, hc⟩
    · rename_i hnone
      cases k with
      | zero =>
        rw [Nat.cast_zero, sub_zero, hnone] at h
        cases h
      | succ k =>
        refine ih (by omega) (k := k) ?_
        have hsame : g - 1 - (k : Int) = g - ((k + 1 : Nat) : Int) := by omega
        rw [hsame]
        exact h

theorem pow_length_digits_le {n : Nat} (hn : 0 < n) : 10 ^ ((digits n).length - 1) ≤ n := by
  by_contra hlt
  have hpos : 0 < (digits n).length := Nat.length_toDigits_pos
  rcases Nat.eq_or_lt_of_le (Nat.succ_le_of_lt hpos) with hone | hmore
  · rw [← hone] at hlt
    simp at hlt
    omega
  · have hshort : (digits n).length ≤ (digits n).length - 1 :=
      (Nat.length_toDigits_le_iff (by decide) (by omega)).2 (not_le.1 hlt)
    omega

/-- The leading exponent of a magnitude is that of a power of ten below it. -/
theorem leadingExponent_le (hm : 0 < m) (hq : -1074 ≤ q) :
    (10 : ℚ) ^ leadingExponent m q ≤ m * 2 ^ q := by
  obtain ⟨scaled, hscaled, hle, hpos⟩ : ∃ scaled : Nat,
      leadingExponent m q = (digits scaled).length - 401 ∧
      (scaled : ℚ) ≤ m * 2 ^ q * 10 ^ 400 ∧ 0 < scaled := by
    refine ⟨_, rfl, ?_, ?_⟩
    · split
      · rename_i hsign
        rw [Nat.shiftLeft_eq]
        conv_rhs => rw [← Int.toNat_of_nonneg hsign, zpow_natCast]
        rw [Nat.cast_mul, Nat.cast_mul, cast_tenPow, Nat.cast_pow, Nat.cast_ofNat]
      · rename_i hsign
        have hneg : q = -((-q).toNat : Int) := by omega
        conv_rhs => rw [hneg, zpow_neg, zpow_natCast]
        refine (Nat.cast_div_le).trans (le_of_eq ?_)
        rw [Nat.cast_mul, cast_tenPow, cast_twoPow, div_eq_mul_inv, mul_right_comm]
    · split
      · rw [Nat.shiftLeft_eq]
        exact Nat.mul_pos (Nat.mul_pos hm (Nat.two_pow_pos _)) (tenPow_pos _)
      · refine Nat.div_pos ?_ (twoPow_pos _)
        exact (twoPow_le_tenPow (by omega)).trans (Nat.le_mul_of_pos_left _ hm)
  rw [hscaled]
  have hlength : 0 < (digits scaled).length := Nat.length_toDigits_pos
  have hsplit : ((digits scaled).length : Int) - 401 =
      (((digits scaled).length - 1 : Nat) : Int) - (400 : Nat) := by omega
  have hpow : ((10 ^ ((digits scaled).length - 1) : Nat) : ℚ) ≤ scaled := by
    exact_mod_cast pow_length_digits_le hpos
  rw [hsplit, zpow_sub₀ (by norm_num), zpow_natCast, zpow_natCast, div_le_iff₀ (by positivity)]
  push_cast at hpow
  exact hpow.trans hle

/-- **The shortest decimal of a magnitude lies in its interval.** -/
theorem shortest_holds (hmq : IsMagnitude m q) :
    Interval.Holds m q ((shortest m q).1 * 10 ^ (shortest m q).2) := by
  have hfine : (10 : ℚ) ^ (leadingExponent m q - (17 : Nat)) ≤ 2 ^ (q - 2) := by
    rw [zpow_sub₀ (by norm_num), two_zpow_sub_two, div_le_iff₀ (by positivity)]
    have hm : (m : ℚ) ≤ 2 ^ 53 := by exact_mod_cast hmq.lt.le
    have hlead := leadingExponent_le hmq.pos hmq.least
    have hpos := two_zpow_pos q
    have hproduct : (m * 2 ^ q : ℚ) ≤ 2 ^ 53 * 2 ^ q := mul_le_mul_of_nonneg_right hm hpos.le
    rw [zpow_natCast]
    nlinarith
  obtain ⟨c, g, hsearch, hgrid⟩ := (Interval.ofMagnitude m q).exists_search (n := 18) (k := 17)
    (by decide) (Interval.isSome_onGrid hmq.pos hfine)
  rw [shortest, if_neg hmq.pos.ne', hsearch]
  exact Interval.holds_of_onGrid hgrid

end GrammarSuite.Decimal
