import GrammarSuite.Decimal.Binary

/-!
# Digests

The digest SHA-512 of a sequence of bytes, as the number that its bytes are. Its constants are the
fractions of the square roots and the cube roots of the first primes, and are computed here as
such.

## Main definitions

* `rootFraction`, `primes`: the constants
* `padded`: a message filled up to whole blocks
* `Digest.compress`: the state after a block
* `Digest.number`: the digest of a message
* `bytesNumber`: the number that bytes are, the first one counting most
-/

namespace GrammarSuite.Random

open Decimal (twoPow)

/-- The number that bytes are, the first one counting most. -/
def bytesNumber (bytes : Array UInt8) : Nat := bytes.foldl (fun n b => 256 * n + b.toNat) 0

/-- The greatest number that agrees with `found` above its last `bits` bits, and whose power is at
most `n`. -/
def rootAbove (degree n : Nat) : (bits found : Nat) → Nat
  | 0, found => found
  | bits + 1, found =>
    let next := found + twoPow bits
    rootAbove degree n bits (if next.pow degree ≤ n then next else found)

/-- The first 64 bits of the fraction of a root. -/
def rootFraction (degree n : Nat) : UInt64 :=
  -- Eight bits are enough for the whole part of the root, and are dropped.
  UInt64.ofNat (rootAbove degree (n * twoPow (64 * degree)) 72 0)

/-- The primes that give the constants, eighty of them. -/
def primes : List Nat :=
  (List.range 410).filter fun n => 2 ≤ n && (List.range n).all fun d => d < 2 || n % d != 0

/-- The constants of the rounds. -/
def roundConstants : List UInt64 := primes.map (rootFraction 3)

/-- The state of a digest, and the digest at the end. -/
structure Digest where
  a : UInt64
  b : UInt64
  c : UInt64
  d : UInt64
  e : UInt64
  f : UInt64
  g : UInt64
  h : UInt64

namespace Digest

/-- The state before the first block. -/
def start : Digest :=
  ⟨rootFraction 2 2, rootFraction 2 3, rootFraction 2 5, rootFraction 2 7, rootFraction 2 11,
    rootFraction 2 13, rootFraction 2 17, rootFraction 2 19⟩

/-- A word turned to the right. -/
def rotate (w n : UInt64) : UInt64 := (w >>> n) ||| (w <<< (64 - n))

/-- The state after a round, with a constant and a word of the schedule. -/
def round (s : Digest) (constant word : UInt64) : Digest :=
  let spread := rotate s.e 14 ^^^ rotate s.e 18 ^^^ rotate s.e 41
  let choice := (s.e &&& s.f) ^^^ ((s.e ^^^ 0xFFFFFFFFFFFFFFFF) &&& s.g)
  let first := s.h + spread + choice + constant + word
  let mixed := rotate s.a 28 ^^^ rotate s.a 34 ^^^ rotate s.a 39
  let majority := (s.a &&& s.b) ^^^ (s.a &&& s.c) ^^^ (s.b &&& s.c)
  ⟨first + mixed + majority, s.a, s.b, s.c, s.d + first, s.e, s.f, s.g⟩

/-- A schedule with one more word. -/
def extend (words : Array UInt64) : Array UInt64 :=
  let earlier (n : Nat) : UInt64 := words.getD (words.size - n) 0
  let near := earlier 2
  let far := earlier 15
  words.push <| earlier 16 +
    (rotate far 1 ^^^ rotate far 8 ^^^ (far >>> 7)) + earlier 7 +
    (rotate near 19 ^^^ rotate near 61 ^^^ (near >>> 6))

/-- The schedule of a block: its sixteen words, and sixty-four that they give. -/
def schedule (block : Array UInt64) : Array UInt64 :=
  (List.range 64).foldl (fun words _ => extend words) block

/-- The state after a block. -/
def compress (s : Digest) (block : Array UInt64) : Digest :=
  let t := (roundConstants.zip (schedule block).toList).foldl (fun t (k, w) => t.round k w) s
  ⟨s.a + t.a, s.b + t.b, s.c + t.c, s.d + t.d, s.e + t.e, s.f + t.f, s.g + t.g, s.h + t.h⟩

/-- The words of a state as one number. -/
def toNat (s : Digest) : Nat :=
  [s.a, s.b, s.c, s.d, s.e, s.f, s.g, s.h].foldl (fun n w => n * twoPow 64 + w.toNat) 0

end Digest

/-- The zero bytes that fill a message up. -/
def fillLength (size : Nat) : Nat := (239 - size % 128) % 128

/-- The bytes of a number, `count` of them, the first one counting most. -/
def numberBytes (n : Nat) : (count : Nat) → Array UInt8
  | 0 => #[]
  | count + 1 => (numberBytes (n / 256) count).push (UInt8.ofNat n)

/-- A message filled up to whole blocks: a mark, zeros, and the length of the message in bits. -/
def padded (message : Array UInt8) : Array UInt8 :=
  message.push 0x80 ++ Array.replicate (fillLength message.size) 0 ++
    numberBytes (8 * message.size) 16

theorem size_numberBytes (n count : Nat) : (numberBytes n count).size = count := by
  induction count generalizing n with
  | zero => rfl
  | succ count ih => simp [numberBytes, ih]

/-- A padded message consists of whole blocks of 128 bytes. -/
theorem size_padded_mod (message : Array UInt8) : (padded message).size % 128 = 0 := by
  simp only [padded, Array.size_append, Array.size_push, Array.size_replicate, size_numberBytes,
    fillLength]
  omega

/-- The word that starts at a byte. -/
def wordFrom (bytes : Array UInt8) (i : Nat) : UInt64 :=
  UInt64.ofNat (bytesNumber (bytes.extract i (i + 8)))

/-- The block with a number. -/
def blockOf (bytes : Array UInt8) (n : Nat) : Array UInt64 :=
  Array.ofFn fun i : Fin 16 => wordFrom bytes (128 * n + 8 * i)

/-- The digest of a message, as a number. -/
def Digest.number (message : Array UInt8) : Nat :=
  let bytes := padded message
  ((List.range (bytes.size / 128)).foldl (fun s n => s.compress (blockOf bytes n)) start).toNat

end GrammarSuite.Random
