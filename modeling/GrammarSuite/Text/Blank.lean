/-!
# Blanks, words and lines

A text is cut into words at blanks and into lines at line ends, both in the sense of Unicode: the
blanks are the characters of white space and the separators of the ASCII control block, and a line
end is one of the eleven line terminators, with a carriage return and a line feed counted as one.

## Main definitions

* `isBlank`, `isLineEnd`: the two character classes
* `trim`, `trimEnd`: a text without its outer blanks
* `words`: the maximal runs of non-blank characters
* `lines`: the lines of a text, without their ends

## Main statements

* `isLineEnd_eq_false_of_mem_lines`: no line holds a line end
-/

namespace GrammarSuite.Text

/-- White space: the blanks of ASCII, its four information separators, and the Unicode spaces. -/
def isBlank (c : Char) : Bool :=
  let n := c.toNat
  (9 ≤ n && n ≤ 13) || (28 ≤ n && n ≤ 32) || n == 0x85 || n == 0xA0 || n == 0x1680 ||
    (0x2000 ≤ n && n ≤ 0x200A) || n == 0x2028 || n == 0x2029 || n == 0x202F || n == 0x205F ||
    n == 0x3000

/-- A character that ends a line. -/
def isLineEnd (c : Char) : Bool :=
  let n := c.toNat
  (10 ≤ n && n ≤ 13) || (28 ≤ n && n ≤ 30) || n == 0x85 || n == 0x2028 || n == 0x2029

/-- A text without the blanks it starts with. -/
def trimStart (s : List Char) : List Char := s.dropWhile isBlank

/-- A text without the blanks it ends with. -/
def trimEnd (s : List Char) : List Char := (s.reverse.dropWhile isBlank).reverse

/-- A text without the blanks around it. -/
def trim (s : List Char) : List Char := trimEnd (trimStart s)

/-- The maximal runs of non-blank characters, in order. -/
def words (s : List Char) : List (List Char) := (s.splitOnP isBlank).filter (!·.isEmpty)

/-- Puts a character in front of the first line; a text without lines becomes one line. -/
def consLine (c : Char) : List (List Char) → List (List Char)
  | [] => [[c]]
  | l :: ls => (c :: l) :: ls

/-- The lines of a text. A line end closes a line, and the text after the last one is a line only
if it is not empty. -/
def lines : List Char → List (List Char)
  | [] => []
  | '\r' :: '\n' :: s => [] :: lines s
  | c :: s => if isLineEnd c then [] :: lines s else consLine c (lines s)

theorem lines_cons {c : Char} (h : isLineEnd c = false) (s : List Char) :
    lines (c :: s) = consLine c (lines s) := by
  rw [lines, if_neg (Bool.eq_false_iff.1 h)]
  -- The pair of a carriage return and a line feed starts with a line end.
  rintro _ rfl
  simp [isLineEnd] at h

/-- No line of a text holds a line end. -/
theorem isLineEnd_eq_false_of_mem_lines {s l : List Char} (hl : l ∈ lines s) :
    ∀ c ∈ l, isLineEnd c = false := by
  fun_induction lines s generalizing l with
  | case1 => simp at hl
  | case2 s ih =>
    rcases List.mem_cons.1 hl with rfl | hl
    · simp
    · exact ih hl
  | case3 c s _ hc ih =>
    rcases List.mem_cons.1 hl with rfl | hl
    · simp
    · exact ih hl
  | case4 c s _ hc ih =>
    -- The character is put in front of the first line of the rest, or is a line of its own.
    have hc : isLineEnd c = false := by simpa using hc
    cases hrest : lines s with
    | nil =>
      rw [hrest, consLine, List.mem_singleton] at hl
      simpa [hl] using hc
    | cons first rest =>
      rw [hrest] at hl ih
      rcases List.mem_cons.1 hl with rfl | hl
      · rw [List.forall_mem_cons]
        exact ⟨hc, ih List.mem_cons_self⟩
      · exact ih (List.mem_cons_of_mem first hl)

/-- A text in which a carriage return, alone or before a line feed, is a line feed. -/
def normalizeNewlines : List Char → List Char
  | [] => []
  | '\r' :: '\n' :: s => '\n' :: normalizeNewlines s
  | c :: s => (if c = '\r' then '\n' else c) :: normalizeNewlines s

/-- Words joined by single spaces. -/
def unwords (ws : List String) : String := " ".intercalate ws

/-- Lines joined by line feeds, without one at the end. -/
def unlines (ls : List String) : String := "\n".intercalate ls

/-- Every line end is a blank. -/
theorem isBlank_of_isLineEnd {c : Char} (h : isLineEnd c) : isBlank c := by
  simp only [isLineEnd, isBlank, Bool.or_eq_true, Bool.and_eq_true, decide_eq_true_eq,
    beq_iff_eq] at h ⊢
  omega

/-- The blanks of ASCII are blanks. -/
theorem isBlank_of_isWhitespace {c : Char} (h : c.isWhitespace) : isBlank c := by
  simp only [Char.isWhitespace, Bool.or_eq_true, decide_eq_true_eq] at h
  rcases h with ((rfl | rfl) | rfl) | rfl <;> decide

end GrammarSuite.Text
