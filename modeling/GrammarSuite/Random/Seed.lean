import GrammarSuite.Random.Digest
import GrammarSuite.Random.Twister
import GrammarSuite.Json.Misuse

/-!
# Seeds

A generator is seeded by a number, and other values stand for numbers. A double stands for the
residue of its fraction modulo the prime `2 ^ 61 - 1`, so that a double that is a whole number
below it stands for itself. A text stands for the number that its bytes are, followed by their
digest.

## Main definitions

* `Seed.ofDouble`, `Seed.ofText`: the numbers of doubles and texts
* `Seed.ofValue`: the number of a value
* `Twister.ofValue`: the generator of a value
-/

namespace GrammarSuite.Random

open Decimal (twoPow)
open Json (Misuse Value)

namespace Seed

/-- The number of bits after which residues repeat. -/
def period : Nat := 61

/-- The prime of the residues. -/
def modulus : Nat := twoPow period - 1

/-- The residue of a fraction whose denominator is a power of two. Such a power has the inverse that
completes it to the period. -/
def residue (numerator denominator : Nat) : Nat :=
  numerator * twoPow ((period - denominator.log2 % period) % period) % modulus

/-- The residue of infinity. -/
def infinite : Nat := 314159

/-- A residue with a sign as a number of 64 bits. The residue one has a negative of its own. -/
def signed (negative : Bool) (residue : Nat) : Nat :=
  if negative ∧ residue ≠ 0 then twoPow 64 - max residue 2 else residue

/-- The number of a double. -/
def ofDouble (x : Float) : Nat :=
  let negative := Decimal.isNegative x
  match Decimal.fraction? x, Decimal.Magnitude.ofFloat x with
  | some (numerator, denominator), _ => signed negative (residue numerator.natAbs denominator)
  | none, .infinite => signed negative infinite
  | none, _ => 0

/-- The number of a text. -/
def ofText (s : String) : Nat :=
  let bytes := (Text.bytes s).toArray
  bytesNumber bytes * twoPow 512 + Digest.number bytes

/-- The number of a value, or `otherwise` if there is no value. -/
def ofValue (otherwise : Int) : Value → Except Misuse Int
  | .null => .ok otherwise
  | .int n => .ok n
  | .bool b => .ok (if b then 1 else 0)
  | .float x => .ok (ofDouble x)
  | .text s =>
    match Text.encodingFault? s with
    | some f => .error (.unencodable f)
    | none => .ok (ofText s)
  | .list _ | .object _ => .error .notSeed

/-- Whole numbers are the seeds that they are. -/
theorem ofValue_int (otherwise n : Int) : ofValue otherwise (.int n) = .ok n := rfl

end Seed

/-- The generator of a value. -/
def Twister.ofValue (otherwise : Int) (v : Value) : Except Misuse Twister :=
  (Seed.ofValue otherwise v).map ofSeed

end GrammarSuite.Random
