import GrammarSuite.Decimal.Fixed

/-!
# Shortest decimals

The text of a double has the fewest digits that read back as the same double. The reals that round
to `m * 2 ^ q` form an interval, whose ends belong to it exactly if `m` is even; on the decimal
grids of one, two, … seventeen digits the two neighbours of the value are tried in turn, and the
first grid with a point in the interval gives the digits, the nearer point if both are in it and
the even one if they are equally near.

## Main definitions

* `shortest`: the digits and the decimal exponent of a magnitude
* `Layout`: where positional writing ends, and how an exponent is written
* `text`: the text of a double under a layout
-/

namespace GrammarSuite.Decimal

/-- The interval of the reals that round to `m * 2 ^ q`, in units of `2 ^ (q - 2)`. Below a power
of two the spacing of the doubles is half as wide. -/
structure Interval where
  low : Nat
  value : Nat
  high : Nat
  closed : Bool
  deriving Repr

/-- The interval of a magnitude. -/
def Interval.ofMagnitude (m : Nat) (q : Int) : Interval where
  low := if m = twoPow 52 ∧ -1074 < q then 4 * m - 1 else 4 * m - 2
  value := 4 * m
  high := 4 * m + 2
  closed := m % 2 == 0

/-- Whether the grid point `c` lies in the interval, when a unit of the interval is `unit` and a
step of the grid is `step`. -/
def Interval.contains (i : Interval) (unit step c : Nat) : Bool :=
  if i.closed then i.low * unit ≤ c * step && c * step ≤ i.high * unit
  else i.low * unit < c * step && c * step < i.high * unit

/-- The decimal exponent of the leading digit of `m * 2 ^ q`, for a double that is not zero. -/
def leadingExponent (m : Nat) (q : Int) : Int :=
  -- The value is scaled by a power of ten that makes every double greater than one.
  let scaled := if 0 ≤ q then m <<< q.toNat * tenPow 400 else m * tenPow 400 / twoPow (-q).toNat
  (digits scaled).length - 401

/-- The point of the grid with step `10 ^ g` nearest to the value among its two neighbours that
lie in the interval. -/
def Interval.onGrid (i : Interval) (q g : Int) : Option Nat :=
  -- Of two powers with opposite exponents one is 1, so that no fraction arises.
  let unit := twoPow (q - 2).toNat * tenPow (-g).toNat
  let step := twoPow (2 - q).toNat * tenPow g.toNat
  let below := i.value * unit / step
  match i.contains unit step below, i.contains unit step (below + 1) with
  | true, true => some (roundDiv (i.value * unit) step)
  | true, false => some below
  | false, true => some (below + 1)
  | false, false => none

/-- The first of the grids, from step `10 ^ g` downwards, that has a point in the interval. -/
def Interval.search (i : Interval) (q : Int) : Nat → Int → Nat × Int
  | 0, g => (i.value, g)
  | n + 1, g =>
    match i.onGrid q g with
    | some c => (c, g)
    | none => i.search q n (g - 1)

/-- The shortest decimal `d * 10 ^ g` that reads back as `m * 2 ^ q`, as the pair of `d` and `g`. -/
def shortest (m : Nat) (q : Int) : Nat × Int :=
  if m = 0 then (0, 0) else (Interval.ofMagnitude m q).search q 18 (leadingExponent m q)

/-- How the text of a double is laid out. -/
structure Layout where
  /-- The least exponent of the leading digit that is written positionally. -/
  least : Int
  /-- The first exponent of the leading digit that is not written positionally. -/
  bound : Int
  /-- The least number of digits of an exponent. -/
  exponentDigits : Nat
  infinite : String
  undefined : String

/-- Digits with the point in place: `0.ds * 10 ^ point`. A whole number keeps one zero. -/
def positional (ds : List Char) (point : Int) : List Char :=
  if point ≤ 0 then '0' :: '.' :: List.replicate (-point).toNat '0' ++ ds
  else if ds.length ≤ point.toNat then
    ds ++ List.replicate (point.toNat - ds.length) '0' ++ ['.', '0']
  else ds.take point.toNat ++ '.' :: ds.drop point.toNat

/-- Digits with an exponent. -/
def Layout.scientific (l : Layout) (ds : List Char) (exponent : Int) : List Char :=
  let size := digits exponent.natAbs
  let tail := if ds.length ≤ 1 then [] else '.' :: ds.drop 1
  ds.take 1 ++ tail ++ 'e' :: (if exponent < 0 then '-' else '+') ::
    List.replicate (l.exponentDigits - size.length) '0' ++ size

/-- Digits without the zeros at their end. -/
def withoutTrailingZeros (ds : List Char) : List Char :=
  (ds.reverse.dropWhile (· == '0')).reverse

/-- The text of a double: the shortest digits, positionally or with an exponent. -/
def text (l : Layout) (x : Float) : String :=
  let sign := if isNegative x then "-" else ""
  match Magnitude.ofFloat x with
  | .infinite => sign ++ l.infinite
  | .undefined => l.undefined
  | .finite m q =>
    if m = 0 then sign ++ "0.0"
    else
      let (d, g) := shortest m q
      let all := digits d
      let point := g + all.length
      let ds := withoutTrailingZeros all
      sign ++ String.ofList (if l.least ≤ point - 1 ∧ point - 1 < l.bound then positional ds point
        else l.scientific ds (point - 1))

end GrammarSuite.Decimal
