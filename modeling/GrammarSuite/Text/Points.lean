/-!
# Code points

A text is a sequence of code points. Most of them are characters, but a text of UTF-16 units may
hold half of a pair, which is none. In a `String` such a half is spelled by two characters: a mark,
for which the last code point serves, and a character of the last private plane, one for each half.
Where the mark stands for itself it is spelled twice. The spelling of one code point never starts
that of another one, so that a text may be searched, cut at characters and joined as it is spelled;
only what counts, orders or shows code points has to read the spelling.

## Main definitions

* `isHalf`: whether a code point is half of a pair
* `points`, `ofPoints`: the code points of a text, and the text of code points
* `size`, `split`: the length of a text, and its two parts at a position
* `precedes`: the order of texts
* `padLeft`, `padRight`: a text filled up with blanks to a width

## Main statements

* `points_ofPoints`: code points are read back from their text
-/

namespace GrammarSuite.Text

/-- The number of code points. -/
def pointCount : Nat := 0x110000

/-- Whether a code point is half of a pair. -/
def isHalf (n : Nat) : Bool := 0xD800 ≤ n && n < 0xE000

/-- The character in front of the one that stands for a half. -/
def mark : Char := Char.ofNat 0x10FFFF

/-- The distance from a half to the character behind its mark. -/
def halfOffset : Nat := 0x101800

/-- The characters that spell a code point. -/
def spell (n : Nat) : List Char :=
  if isHalf n then [mark, Char.ofNat (n + halfOffset)]
  else if n = mark.toNat then [mark, mark]
  else [Char.ofNat n]

/-- The code point of a character behind a mark. -/
def marked (c : Char) : Nat := if c = mark then mark.toNat else c.toNat - halfOffset

/-- The code points that characters spell. -/
def pointsOf : List Char → List Nat
  | [] => []
  | [c] => [c.toNat]
  | c :: d :: rest =>
    if c = mark then marked d :: pointsOf rest else c.toNat :: pointsOf (d :: rest)

/-- The code points of a text. -/
def points (s : String) : List Nat := pointsOf s.toList

/-- The text of code points. -/
def ofPoints (ns : List Nat) : String := String.ofList (ns.flatMap spell)

/-- A text that is all characters, as it is spelled. -/
def ofCharacters (s : String) : String := ofPoints (s.toList.map Char.toNat)

/-- A spelled text with the replacement character in place of each half. -/
def characters (s : String) : String :=
  String.ofList ((points s).map fun n => if isHalf n then '\uFFFD' else Char.ofNat n)

/-- The number of code points of a text. -/
def size (s : String) : Nat := (points s).length

/-- A text cut at a position. -/
def split (position : Nat) (s : String) : String × String :=
  (ofPoints ((points s).take position), ofPoints ((points s).drop position))

/-- Whether a text comes before another one in the order of code points. -/
def precedes (s t : String) : Bool := decide (points s < points t)

/-- Whether code points occur side by side among others. -/
def occurs (part : List Nat) : List Nat → Bool
  | [] => part.isEmpty
  | n :: rest => part.isPrefixOf (n :: rest) || occurs part rest

/-- Whether a text is part of another one. -/
def isPart (part s : String) : Bool := occurs (points part) (points s)

/-- A text with blanks in front, up to a width. -/
def padLeft (width : Nat) (s : String) : String :=
  String.ofList (List.replicate (width - size s) ' ' ++ s.toList)

/-- A text with blanks behind, up to a width. -/
def padRight (width : Nat) (s : String) : String :=
  String.ofList (s.toList ++ List.replicate (width - size s) ' ')

theorem mark_toNat : mark.toNat = 0x10FFFF := by decide

/-- A valid code point is that of its character. -/
theorem toNat_ofNat {n : Nat} (h : n.isValidChar) : (Char.ofNat n).toNat = n := by
  rw [Char.ofNat, dif_pos h]
  rfl

/-- Only the mark is spelled by characters that start with it, besides the halves. -/
theorem ofNat_ne_mark {n : Nat} (h : n.isValidChar) (hn : n ≠ 0x10FFFF) : Char.ofNat n ≠ mark := by
  intro he
  have := congrArg Char.toNat he
  rw [toNat_ofNat h, mark_toNat] at this
  exact hn this

theorem pointsOf_nil : pointsOf [] = [] := rfl

theorem pointsOf_singleton (c : Char) : pointsOf [c] = [c.toNat] := rfl

theorem pointsOf_cons_cons (c d : Char) (rest : List Char) :
    pointsOf (c :: d :: rest) =
      if c = mark then marked d :: pointsOf rest else c.toNat :: pointsOf (d :: rest) := rfl

/-- The first code point of a text is read back from its spelling. -/
theorem pointsOf_spell_append {n : Nat} (h : n < pointCount) (s : List Char) :
    pointsOf (spell n ++ s) = n :: pointsOf s := by
  unfold pointCount at h
  by_cases hh : isHalf n = true
  · have hb : 0xD800 ≤ n ∧ n < 0xE000 := by simpa [isHalf] using hh
    have hv : (n + halfOffset).isValidChar := by
      simp only [Nat.isValidChar, halfOffset]; omega
    have hm : Char.ofNat (n + halfOffset) ≠ mark :=
      ofNat_ne_mark hv (by simp only [halfOffset]; omega)
    simp [spell, hh, pointsOf_cons_cons, marked, hm, toNat_ofNat hv]
  · have hv : n.isValidChar := by
      simp only [isHalf, Bool.and_eq_true, decide_eq_true_eq] at hh
      simp only [Nat.isValidChar]; omega
    by_cases hn : n = 0x10FFFF
    · subst hn
      have hs : spell 0x10FFFF = [mark, mark] := by decide
      simp [hs, pointsOf_cons_cons, marked, mark_toNat]
    · have hm := ofNat_ne_mark hv hn
      have hs : spell n = [Char.ofNat n] := by simp [spell, hh, mark_toNat, hn]
      cases s with
      | nil => simp [hs, pointsOf_singleton, pointsOf_nil, toNat_ofNat hv]
      | cons c s => simp [hs, pointsOf_cons_cons, hm, toNat_ofNat hv]

/-- Code points are read back from their text. -/
theorem points_ofPoints {ns : List Nat} (h : ∀ n ∈ ns, n < pointCount) :
    points (ofPoints ns) = ns := by
  simp only [points, ofPoints, String.toList_ofList]
  induction ns with
  | nil => rfl
  | cons n ns ih =>
    rw [List.flatMap_cons, pointsOf_spell_append (h n (by simp)),
      ih fun m hm => h m (List.mem_cons_of_mem n hm)]

end GrammarSuite.Text
