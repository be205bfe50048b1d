import GrammarSuite.Decimal.Fixed

/-!
# Instants

A moment by the calendar and the clock, to the microsecond, as it is written in cases, reports and
file names.

## Main definitions

* `Instant`: a moment
* `Instant.iso`: the moment with all its parts, the fraction only if it is not zero
* `Instant.shown`, `Instant.stamp`: the moment in a report and in a file name
-/

namespace GrammarSuite

/-- A moment by the calendar and the clock. -/
structure Instant where
  year : Nat
  month : Nat
  day : Nat
  hour : Nat
  minute : Nat
  second : Nat
  microsecond : Nat := 0
  /-- The microseconds by which the clock is ahead of universal time, if that is known. -/
  offset : Option Int := none
  deriving DecidableEq, Repr

namespace Instant

/-- A number with zeros in front up to a width. -/
def padded (width n : Nat) : String :=
  let ds := Decimal.digits n
  String.ofList (List.replicate (width - ds.length) '0' ++ ds)

/-- The time of day. -/
def time (i : Instant) : String := padded 2 i.hour ++ ":" ++ padded 2 i.minute ++ ":" ++
  padded 2 i.second

/-- A fraction of a second behind its point; nothing if it is zero. -/
def fraction (microsecond : Nat) : String :=
  if microsecond = 0 then "" else "." ++ padded 6 microsecond

/-- An offset from universal time; its seconds stand only if they are not zero. -/
def offsetText (offset : Int) : String :=
  let n := offset.natAbs
  let seconds := n / 1000000
  (if offset < 0 then "-" else "+") ++ padded 2 (seconds / 3600) ++ ":" ++
    padded 2 (seconds / 60 % 60) ++
    if n % 60000000 = 0 then "" else ":" ++ padded 2 (seconds % 60) ++ fraction (n % 1000000)

/-- The moment with all its parts; the fraction of a second stands only if it is not zero, and the
offset only if it is known. -/
def iso (i : Instant) : String :=
  padded 4 i.year ++ "-" ++ padded 2 i.month ++ "-" ++ padded 2 i.day ++ "T" ++ i.time ++
    fraction i.microsecond ++ ((i.offset.map offsetText).getD "")

/-- The moment in a report. -/
def shown (i : Instant) : String :=
  toString i.year ++ "-" ++ padded 2 i.month ++ "-" ++ padded 2 i.day ++ " " ++ i.time

/-- The moment in a file name. -/
def stamp (i : Instant) : String :=
  toString i.year ++ padded 2 i.month ++ padded 2 i.day ++ "_" ++ padded 2 i.hour ++
    padded 2 i.minute ++ padded 2 i.second

end Instant

end GrammarSuite
