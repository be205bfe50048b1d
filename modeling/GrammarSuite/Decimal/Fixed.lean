import GrammarSuite.Decimal.Binary

/-!
# Fixed places

A double written with a fixed number of decimal places. The exact binary value is rounded once, a
tie goes to the even last digit, and the sign is kept, also in front of zero.

## Main definitions

* `places`: the digits of a magnitude, as a natural number of units of the last place
* `fixed`: the text of a double with a number of places
* `roundTo`: the double nearest to the rounded decimal
-/

namespace GrammarSuite.Decimal

/-- The number `m * 2 ^ q` in units of `10 ^ (-n)`, rounded with ties to even. -/
def places (n m : Nat) (q : Int) : Nat :=
  if 0 ≤ q then roundDiv (m <<< q.toNat * tenPow n) 1
  else roundDiv (m * tenPow n) (twoPow (-q).toNat)

/-- The decimal text of a natural number. -/
def digits (n : Nat) : List Char := Nat.toDigits 10 n

/-- The digits of a number of units of the last of `n` places, with the point set. -/
def withPoint (n units : Nat) : String :=
  let ds := digits units
  let ds := List.replicate (n + 1 - ds.length) '0' ++ ds
  let whole := ds.take (ds.length - n)
  if n = 0 then String.ofList whole else String.ofList (whole ++ '.' :: ds.drop (ds.length - n))

/-- The text of a double with `n` places. -/
def fixed (n : Nat) (x : Float) : String :=
  let sign := if isNegative x then "-" else ""
  match Magnitude.ofFloat x with
  | .finite m q => sign ++ withPoint n (places n m q)
  | .infinite => sign ++ "inf"
  | .undefined => "nan"

/-- A double rounded to `n` decimal places. -/
def roundTo (n : Nat) (x : Float) : Float :=
  match Magnitude.ofFloat x with
  | .finite m q => nearest (isNegative x) (places n m q) (tenPow n)
  | _ => x

end GrammarSuite.Decimal
