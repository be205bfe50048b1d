import GrammarSuite.Text.Points

/-!
# Texts as bytes

A text is written in UTF-8, which has no form for half of a pair: a text with such halves cannot be
written. In the names of files the halves from `0xDC80` to `0xDCFF` stand for single bytes that are
part of no character, and only the other ones have no form.

## Main definitions

* `bytesOf`, `bytes`: the bytes of a code point and of a text
* `EncodingFault`: halves that have no form
* `encodingFault?`, `nameFault?`: the first such halves of a text, and of the name of a file
* `byteSize`: the length of a text in bytes
-/

namespace GrammarSuite.Text

/-- Whether a half stands for a single byte in the name of a file. -/
def isByte (n : Nat) : Bool := 0xDC80 ≤ n && n ≤ 0xDCFF

/-- The bytes of a code point. A half that stands for a byte is that byte. -/
def bytesOf (n : Nat) : List UInt8 :=
  if isByte n then [UInt8.ofNat (n - 0xDC00)]
  else if n < 0x80 then [UInt8.ofNat n]
  else if n < 0x800 then [UInt8.ofNat (0xC0 + n / 0x40), UInt8.ofNat (0x80 + n % 0x40)]
  else if n < 0x10000 then
    [UInt8.ofNat (0xE0 + n / 0x1000), UInt8.ofNat (0x80 + n / 0x40 % 0x40),
      UInt8.ofNat (0x80 + n % 0x40)]
  else
    [UInt8.ofNat (0xF0 + n / 0x40000), UInt8.ofNat (0x80 + n / 0x1000 % 0x40),
      UInt8.ofNat (0x80 + n / 0x40 % 0x40), UInt8.ofNat (0x80 + n % 0x40)]

/-- The bytes of a text. -/
def bytes (s : String) : List UInt8 := (points s).flatMap bytesOf

/-- The length of a text in bytes. -/
def byteSize (s : String) : Nat := (bytes s).length

/-- Halves side by side that have no form: the first one, and the positions of the first and the
last one. -/
structure EncodingFault where
  half : Nat
  first : Nat
  last : Nat
  deriving DecidableEq, Repr

/-- The digits of a number in base sixteen, with zeros in front up to a width. -/
def hex (width n : Nat) : List Char :=
  let digits := Nat.toDigits 16 n
  List.replicate (width - digits.length) '0' ++ digits

/-- The report of halves that have no form. -/
def EncodingFault.message (f : EncodingFault) : String :=
  let place :=
    if f.first = f.last then
      "character '\\u" ++ String.ofList (hex 4 f.half) ++ "' in position " ++ toString f.first
    else "characters in position " ++ toString f.first ++ "-" ++ toString f.last
  "'utf-8' codec can't encode " ++ place ++ ": surrogates not allowed"

/-- The first halves side by side among code points that follow a position. -/
def halvesFrom (position : Nat) : List Nat → Option EncodingFault
  | [] => none
  | n :: rest =>
    if isHalf n then some ⟨n, position, position + (rest.takeWhile isHalf).length⟩
    else halvesFrom (position + 1) rest

/-- The first halves of a text. -/
def encodingFault? (s : String) : Option EncodingFault := halvesFrom 0 (points s)

/-- The first halves side by side among code points that follow a position, without those in front
that stand for bytes. -/
def strayHalvesFrom (position : Nat) : List Nat → Option EncodingFault
  | [] => none
  | n :: rest =>
    if isHalf n && !isByte n then
      some ⟨n, position, position + (rest.takeWhile isHalf).length⟩
    else strayHalvesFrom (position + 1) rest

/-- The first halves of the name of a file that stand for no bytes. -/
def nameFault? (s : String) : Option EncodingFault := strayHalvesFrom 0 (points s)

/-- A text without halves can be written. -/
theorem halvesFrom_eq_none {ns : List Nat} (h : ∀ n ∈ ns, isHalf n = false) (position : Nat) :
    halvesFrom position ns = none := by
  induction ns generalizing position with
  | nil => rfl
  | cons n ns ih =>
    simp [halvesFrom, h n (by simp), ih fun m hm => h m (List.mem_cons_of_mem n hm)]

end GrammarSuite.Text
