import GrammarSuite.Text.Blank

/-!
# Integers in texts

A whole number as a user may write it: blanks around it, a sign, and decimal digits of any script,
between which single underscores may stand. A number has at most 4300 digits.

## Main definitions

* `digit?`: the value of a decimal digit
* `integer?`: the whole number of a text
-/

namespace GrammarSuite.Text

/-- The zeros of the scripts; the other nine digits of a script follow its zero. -/
def zeros : List Nat := [
  0x30, 0x660, 0x6F0, 0x7C0, 0x966, 0x9E6, 0xA66, 0xAE6, 0xB66, 0xBE6, 0xC66, 0xCE6, 0xD66, 0xDE6,
  0xE50, 0xED0, 0xF20, 0x1040, 0x1090, 0x17E0, 0x1810, 0x1946, 0x19D0, 0x1A80, 0x1A90, 0x1B50,
  0x1BB0, 0x1C40, 0x1C50, 0xA620, 0xA8D0, 0xA900, 0xA9D0, 0xA9F0, 0xAA50, 0xABF0, 0xFF10, 0x104A0,
  0x10D30, 0x11066, 0x110F0, 0x11136, 0x111D0, 0x112F0, 0x11450, 0x114D0, 0x11650, 0x116C0,
  0x11730, 0x118E0, 0x11950, 0x11C50, 0x11D50, 0x11DA0, 0x16A60, 0x16AC0, 0x16B50, 0x1D7CE,
  0x1D7D8, 0x1D7E2, 0x1D7EC, 0x1D7F6, 0x1E140, 0x1E2F0, 0x1E950, 0x1FBF0]

/-- The value of a decimal digit. -/
def digit? (c : Char) : Option Nat :=
  (zeros.find? fun z => z ≤ c.toNat && c.toNat < z + 10).map (c.toNat - ·)

/-- The digits of a number, between which single underscores may stand; the flag says whether a
digit comes before. -/
def digits? : Bool → List Char → Option (List Nat)
  | before, [] => if before then some [] else none
  | before, c :: rest =>
    if c = '_' then if before then digits? false rest else none
    else
      match digit? c with
      | some d => (digits? true rest).map (d :: ·)
      | none => none

/-- The greatest number of digits. -/
def digitLimit : Nat := 4300

/-- The number of a run of digits. -/
def natural? (s : List Char) : Option Nat :=
  match digits? false s with
  | some ds => if ds.length ≤ digitLimit then some (ds.foldl (fun n d => n * 10 + d) 0) else none
  | none => none

/-- A blank around a number; the separators among the controls are none. -/
def isMargin (c : Char) : Bool := isBlank c && !(28 ≤ c.toNat && c.toNat ≤ 31)

/-- The whole number of a text. -/
def integer? (text : String) : Option Int :=
  let s := ((text.toList.dropWhile isMargin).reverse.dropWhile isMargin).reverse
  match s with
  | '-' :: rest => (natural? rest).map fun n => -(n : Int)
  | '+' :: rest => (natural? rest).map Int.ofNat
  | s => (natural? s).map Int.ofNat

end GrammarSuite.Text
