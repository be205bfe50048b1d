import GrammarSuite.Random.Source

/-!
# The Mersenne Twister

The generator MT19937: a state of 624 words of 32 bits, refilled as a whole by a twist, whose words
are tempered on the way out. A seed is an integer of any size, whose magnitude is cut into words
that key the state.

A number below `n` takes as many upper bits of a word as `n` has, and is drawn again while it is
not below `n`. The number of attempts is bounded, so that drawing is a total function; after the
last one the remainder is taken.

## Main definitions

* `Twister`: the state of the generator
* `Twister.ofSeed`: the generator of a seed
* `Twister.word`: the next tempered word
* `Twister.below`: the next number below a bound
-/

namespace GrammarSuite.Random

/-- The number of words of the state. -/
def stateSize : Nat := 624

/-- The state of the generator: its words, and the position of the next one. -/
structure Twister where
  words : Array UInt32
  position : Nat

namespace Twister

/-- The word at a position. -/
def wordAt (words : Array UInt32) (i : Nat) : UInt32 := words.getD i 0

/-- The words that a single number gives. -/
def initial (seed : UInt32) : Array UInt32 :=
  (List.range' 1 (stateSize - 1)).foldl
    (fun words i =>
      let previous := wordAt words (i - 1)
      words.push ((1812433253 : UInt32) * (previous ^^^ (previous >>> 30)) + UInt32.ofNat i))
    #[seed]

/-- A step of keying: mixes a word with the one before it, and moves on. The last word is copied
to the front before the walk starts again. -/
def mix (factor : UInt32) (change : Nat → UInt32 → UInt32) (walk : Array UInt32 × Nat) :
    Array UInt32 × Nat :=
  let (words, i) := walk
  let previous := wordAt words (i - 1)
  let mixed := change i (wordAt words i ^^^ ((previous ^^^ (previous >>> 30)) * factor))
  let words := words.setIfInBounds i mixed
  if i + 1 < stateSize then (words, i + 1) else (words.setIfInBounds 0 mixed, 1)

/-- The state keyed by a list of words. -/
def ofKey (key : Array UInt32) : Twister :=
  -- Two walks through the state: one adds the words of the key, the other one the positions only.
  let size := max 1 key.size
  let keyed := (List.range (max stateSize size)).foldl
    (fun walk k =>
      let j := k % size
      mix 1664525 (fun _ w => w + key.getD j 0 + UInt32.ofNat j) walk)
    (initial 19650218, 1)
  let (words, _) := (List.range (stateSize - 1)).foldl
    (fun walk _ => mix 1566083941 (fun i w => w - UInt32.ofNat i) walk) keyed
  { words := words.setIfInBounds 0 0x80000000, position := stateSize }

/-- The words of a number, the lowest first; zero has one word. -/
def keyWords (n : Nat) : List UInt32 :=
  UInt32.ofNat n :: if n < UInt32.size then [] else keyWords (n / UInt32.size)
termination_by n
decreasing_by
  simp only [UInt32.size] at *
  omega

/-- The generator of a seed. The sign of the seed does not count. -/
def ofSeed (seed : Int) : Twister := ofKey (keyWords seed.natAbs).toArray

/-- The state with all words renewed. -/
def twist (words : Array UInt32) : Array UInt32 :=
  (List.range stateSize).foldl
    (fun words k =>
      -- The upper bit of a word stands before the lower bits of the next one. Words that have been
      -- renewed are used as such.
      let y := (wordAt words k &&& 0x80000000) |||
        (wordAt words ((k + 1) % stateSize) &&& 0x7FFFFFFF)
      let odd : UInt32 := if y &&& 1 = 0 then 0 else 0x9908B0DF
      words.setIfInBounds k (wordAt words ((k + 397) % stateSize) ^^^ (y >>> 1) ^^^ odd))
    words

/-- A word of the state as it is handed out. -/
def temper (y : UInt32) : UInt32 :=
  let y := y ^^^ (y >>> 11)
  let y := y ^^^ ((y <<< 7) &&& 0x9D2C5680)
  let y := y ^^^ ((y <<< 15) &&& 0xEFC60000)
  y ^^^ (y >>> 18)

/-- The next word. -/
def word (t : Twister) : UInt32 × Twister :=
  if t.position < stateSize then
    (temper (wordAt t.words t.position), { t with position := t.position + 1 })
  else
    let words := twist t.words
    (temper (wordAt words 0), { words, position := 1 })

/-- The next number of `k` bits: the upper bits of a word, behind whole words from the lowest. -/
def bits (k : Nat) (t : Twister) : Nat × Twister :=
  if k ≤ 32 then
    let (w, t) := t.word
    (w.toNat >>> (32 - k), t)
  else
    let (low, t) := t.word
    let (high, t) := bits (k - 32) t
    (high <<< 32 + low.toNat, t)
termination_by k

/-- The number of bits of a natural number. -/
def bitLength (n : Nat) : Nat := if n = 0 then 0 else n.log2 + 1

/-- The next number below `n`, in a bounded number of attempts. -/
def below (n : Nat) : Nat → Twister → Nat × Twister
  | 0, t =>
    let (r, t) := t.bits (bitLength n)
    (r % n, t)
  | attempts + 1, t =>
    let (r, t) := t.bits (bitLength n)
    if r < n then (r, t) else below n attempts t

theorem below_lt {n : Nat} (h : 0 < n) (attempts : Nat) (t : Twister) :
    (below n attempts t).1 < n := by
  induction attempts generalizing t with
  | zero => exact Nat.mod_lt _ h
  | succ attempts ih =>
    unfold below
    dsimp only
    split
    · assumption
    · exact ih _

/-- The attempts at a number before the remainder is taken. -/
def attemptLimit : Nat := 512

instance : Source Twister where
  next low high t :=
    let (n, t) := t.below (high - low) attemptLimit
    (low + n, t)

instance : LawfulSource Twister where
  ready_eq_true _ := rfl
  next_mem {low high} t h := by
    have := below_lt (n := high - low) (by omega) attemptLimit t
    simp only [Source.next]
    omega

end Twister

end GrammarSuite.Random
