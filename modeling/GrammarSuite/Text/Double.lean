import GrammarSuite.Decimal.Binary
import GrammarSuite.Text.Integer

/-!
# Doubles in texts

A double as a user may write it: blanks around it, a sign, decimal digits of any script on one side
of a point or on both, between which single underscores may stand, and an exponent. The infinities
and the double that is no number have names.

## Main definitions

* `ofDecimal`: the double nearest to a decimal
* `decimal?`: the double of a text without blanks and sign
* `double?`: the double of a text
-/

namespace GrammarSuite.Text

/-- The number of some digits. -/
def ofDigits (ds : List Nat) : Nat := ds.foldl (fun n d => n * 10 + d) 0

/-- The infinite doubles. -/
def infinite (negative : Bool) : Float := Decimal.nearest negative (Decimal.twoPow 1100) 1

/-- The double of a decimal: digits, of which the last `places` stand behind the point, and an
exponent. Exponents beyond the range of the doubles are not worked out. -/
def ofDecimal (negative : Bool) (ds : List Nat) (places : Nat) (exponent : Int) : Float :=
  let significant := ds.dropWhile (· == 0)
  let n := ofDigits significant
  let e := exponent - places
  let top := significant.length + e
  if n = 0 ∨ top < -400 then Decimal.nearest negative 0 1
  else if 400 < top then infinite negative
  else if 0 ≤ e then Decimal.nearest negative (n * Decimal.tenPow e.toNat) 1
  else Decimal.nearest negative n (Decimal.tenPow (-e).toNat)

/-- The digits on a side of a point, of which there may be none. -/
def side? (s : List Char) : Option (List Nat) := if s.isEmpty then some [] else digits? false s

/-- The exponent behind a mantissa, from the letter in front of it; without any it is zero. -/
def exponent? : List Char → Option Int
  | [] => some 0
  | _ :: '-' :: s => (digits? false s).map fun ds => -(ofDigits ds : Int)
  | _ :: '+' :: s => (digits? false s).map fun ds => ofDigits ds
  | _ :: s => (digits? false s).map fun ds => ofDigits ds

/-- Whether a letter stands in front of an exponent. -/
def startsExponent (c : Char) : Bool := c = 'e' || c = 'E'

/-- The double of a text without blanks and sign. -/
def decimal? (negative : Bool) (s : List Char) : Option Float := do
  let name := String.ofList (s.map Char.toLower)
  if name = "inf" ∨ name = "infinity" then some (infinite negative)
  else if name = "nan" then some (Float.ofBits 0x7FF8000000000000)
  else
    let mantissa := s.takeWhile (!startsExponent ·)
    let whole ← side? (mantissa.takeWhile (· != '.'))
    let fraction ← side? ((mantissa.dropWhile (· != '.')).drop 1)
    let exponent ← exponent? (s.dropWhile (!startsExponent ·))
    if whole.isEmpty ∧ fraction.isEmpty then none
    else some (ofDecimal negative (whole ++ fraction) fraction.length exponent)

/-- The double of a text. -/
def double? (text : String) : Option Float :=
  match ((text.toList.dropWhile isMargin).reverse.dropWhile isMargin).reverse with
  | '-' :: s => decimal? true s
  | '+' :: s => decimal? false s
  | s => decimal? false s

end GrammarSuite.Text
