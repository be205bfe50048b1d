/-!
# Binary fractions

A finite double is `m * 2 ^ q` with a sign. This module takes doubles apart and puts them together:
`Magnitude.ofFloat` reads the fields of the bit pattern, and `nearest num den` is the double
nearest to a quotient of natural numbers, in exact arithmetic, with ties to the even neighbour.

## Main definitions

* `twoPow`, `tenPow`: powers of two and of ten
* `Magnitude`: a double taken apart
* `fraction?`: a finite double as an exact fraction
* `roundDiv`: a quotient rounded to a natural number, ties to even
* `nearestBits`, `nearest`: the double nearest to a quotient
-/

namespace GrammarSuite.Decimal

/-- A power of two. -/
def twoPow (n : Nat) : Nat := Nat.pow 2 n

/-- A power of ten. -/
def tenPow (n : Nat) : Nat := Nat.pow 10 n

/-- A double without its sign. -/
inductive Magnitude
  /-- The number `mantissa * 2 ^ exponent`. -/
  | finite (mantissa : Nat) (exponent : Int)
  | infinite
  | undefined
  deriving DecidableEq, Repr

/-- The sign bit of a double. -/
def isNegative (x : Float) : Bool := x.toBits >>> 63 == 1

/-- A double taken apart. The subnormal numbers have the least exponent and no hidden bit. -/
def Magnitude.ofFloat (x : Float) : Magnitude :=
  let bits : Nat := x.toBits.toNat
  let fraction : Nat := bits % twoPow 52
  let biased : Nat := bits / twoPow 52 % twoPow 11
  if biased = 0 then .finite fraction (-1074)
  else if biased = 2047 then (if fraction = 0 then .infinite else .undefined)
  else .finite (fraction + twoPow 52) (biased - 1075)

/-- A finite double as a fraction, whose denominator is a power of two. -/
def fraction? (x : Float) : Option (Int × Nat) :=
  match Magnitude.ofFloat x with
  | .finite m q =>
    let numerator : Int := m * twoPow q.toNat
    some (if isNegative x then -numerator else numerator, twoPow (-q).toNat)
  | _ => none

/-- The quotient rounded to the nearest natural number, a tie to the even one. -/
def roundDiv (num den : Nat) : Nat :=
  let quotient := num / den
  let rest := num % den
  if 2 * rest < den then quotient
  else if den < 2 * rest then quotient + 1
  else quotient + quotient % 2

/-- A quotient is rounded down or up, according to what remains of a division. -/
theorem roundDiv_cases {num den : Nat} (h : 0 < den) :
    ∃ quotient rest, num = quotient * den + rest ∧ rest < den ∧
      (roundDiv num den = quotient ∧ 2 * rest ≤ den ∧ (2 * rest = den → quotient % 2 = 0) ∨
        roundDiv num den = quotient + 1 ∧ den ≤ 2 * rest ∧ (2 * rest = den → quotient % 2 = 1)) := by
  refine ⟨num / den, num % den, (Nat.div_add_mod' num den).symm, Nat.mod_lt num h, ?_⟩
  rw [roundDiv]
  split
  · exact .inl ⟨rfl, by omega, by omega⟩
  · split
    · exact .inr ⟨rfl, by omega, by omega⟩
    · rcases Nat.mod_two_eq_zero_or_one (num / den) with heven | hodd
      · exact .inl ⟨by omega, by omega, fun _ => heven⟩
      · exact .inr ⟨by omega, by omega, fun _ => hodd⟩

/-- A rounded quotient is within half a unit of the quotient. -/
theorem roundDiv_bounds {num den : Nat} (h : 0 < den) :
    2 * num ≤ (2 * roundDiv num den + 1) * den ∧ (2 * roundDiv num den) * den ≤ 2 * num + den := by
  obtain ⟨quotient, rest, rfl, hlt, ⟨hround, hrest, -⟩ | ⟨hround, hrest, -⟩⟩ :=
    @roundDiv_cases num den h
  · rw [hround]
    constructor <;> grind
  · rw [hround]
    constructor <;> grind

/-- The exponent of the greatest power of two that is at most `num / den`. -/
def floorLog2 (num den : Nat) : Int :=
  let guess : Int := num.log2 - den.log2
  let reached := if 0 ≤ guess then den <<< guess.toNat ≤ num else den ≤ num <<< (-guess).toNat
  if reached then guess else guess - 1

/-- The bit pattern of the double nearest to `num / den`. The significand is rounded once, in the
binade of the quotient or at the least exponent; adding it to the biased exponent lets a carry move
into the next binade, and what is too large is infinite. -/
def nearestBits (num den : Nat) : Nat :=
  if num = 0 then 0
  else
    let exponent := max (floorLog2 num den - 52) (-1074)
    let significand :=
      if 0 ≤ exponent then roundDiv num (den <<< exponent.toNat)
      else roundDiv (num <<< (-exponent).toNat) den
    min ((exponent + 1074).toNat * twoPow 52 + significand) (2047 * twoPow 52)

/-- The double nearest to `num / den`, with a sign. -/
def nearest (negative : Bool) (num den : Nat) : Float :=
  Float.ofBits (UInt64.ofNat (nearestBits num den + if negative then twoPow 63 else 0))

/-- The double nearest to an integer. -/
def ofInt (n : Int) : Float := nearest (n < 0) n.natAbs 1

end GrammarSuite.Decimal
