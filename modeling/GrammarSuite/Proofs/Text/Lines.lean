import GrammarSuite.Proofs.Text.Words
import GrammarSuite.Text.Lowercase

/-!
# Lines and pieces of texts

Lines that are joined by line feeds are found again. What a text is cut into are runs of its own
characters, and the blanks around a text change none of its words.

## Main definitions

* `Text.IsLine`: a line that is not empty
* `Text.IsTrimmed`: a text without outer blanks

## Main results

* `Text.lines_append_lines`, `Text.lines_concat_newline`: a text is cut at a line feed
* `Text.lines_intercalate`, `Text.lines_unlines`, `Text.lines_flatMap`: joined lines are cut again
* `Text.infix_of_mem_splitOnP`, `Text.infix_of_mem_words`: pieces and words are runs of the text
* `Text.words_trim`: blanks around a text change no word
* `Text.IsTrimmed.trim_eq`, `Text.isTrimmed_intercalate`: joined words have no outer blanks
* `Text.blank_mem_lowercase`: a blank stays a blank in lower case
-/

namespace GrammarSuite.Text

/-! ## Lines -/

/-- Characters of which none ends a line, at least one. -/
def IsLine (l : List Char) : Prop := l ≠ [] ∧ ∀ c ∈ l, isLineEnd c = false

theorem lines_append {l : List Char} (h : ∀ c ∈ l, isLineEnd c = false) (s : List Char) :
    lines (l ++ '\n' :: s) = l :: lines s := by
  induction l with
  | nil => rfl
  | cons c l ih =>
    rw [List.forall_mem_cons] at h
    rw [List.cons_append, lines_cons h.1, ih h.2]
    rfl

/-- A line end closes an empty line, unless it is a carriage return that may be half of a pair. -/
theorem lines_cons_append {c : Char} (hc : isLineEnd c = true) {s : List Char}
    (hhalf : c = '\r' → s ≠ []) (hpair : ∀ t, c = '\r' → s = '\n' :: t → False) (t : List Char) :
    lines (c :: s ++ t) = [] :: lines (s ++ t) := by
  rw [List.cons_append, lines, if_pos hc]
  intro rest hreturn heq
  obtain ⟨d, s, rfl⟩ := List.exists_cons_of_ne_nil (hhalf hreturn)
  obtain ⟨rfl, -⟩ := List.cons.inj heq
  exact hpair s hreturn rfl

theorem consLine_append (c : Char) {ls : List (List Char)} (h : ls ≠ []) (ms : List (List Char)) :
    consLine c (ls ++ ms) = consLine c ls ++ ms := by
  cases ls with
  | nil => exact absurd rfl h
  | cons l ls => rfl

theorem lines_ne_nil {s : List Char} (h : s ≠ []) : lines s ≠ [] := by
  fun_cases lines s with
  | case1 => exact absurd rfl h
  | case2 s => simp
  | case3 c s _ hc => simp
  | case4 c s _ hc => cases lines s <;> simp [consLine]

/-- Lines that end with a line feed are followed by the lines behind it. The line feed may be half
of the end of a line whose other half is a carriage return before it. -/
theorem lines_append_lines (s t : List Char) :
    lines (s ++ '\n' :: t) = lines (s ++ ['\n']) ++ lines t := by
  fun_induction lines s with
  | case1 => rfl
  | case2 s ih => simpa [lines] using ih
  | case3 c s hpair hc ih =>
    by_cases hhalf : c = '\r' → s ≠ []
    · rw [lines_cons_append hc hhalf hpair, lines_cons_append hc hhalf hpair, ih, List.cons_append]
    · obtain ⟨rfl, rfl⟩ : c = '\r' ∧ s = [] := by simpa using hhalf
      rfl
  | case4 c s _ hc ih =>
    have hc : isLineEnd c = false := by simpa using hc
    rw [List.cons_append, List.cons_append, lines_cons hc, lines_cons hc, ih,
      consLine_append c (lines_ne_nil (by simp))]

/-- A line feed at the end of a text closes its last line, or adds an empty one. -/
theorem lines_concat_newline (s : List Char) :
    lines (s ++ ['\n']) = lines s ∨ lines (s ++ ['\n']) = lines s ++ [[]] := by
  fun_induction lines s with
  | case1 => exact .inr rfl
  | case2 s ih => simpa [lines] using ih
  | case3 c s hpair hc ih =>
    by_cases hhalf : c = '\r' → s ≠ []
    · rw [lines_cons_append hc hhalf hpair]
      simpa using ih
    · obtain ⟨rfl, rfl⟩ : c = '\r' ∧ s = [] := by simpa using hhalf
      exact .inl rfl
  | case4 c s _ hc ih =>
    have hc : isLineEnd c = false := by simpa using hc
    rw [List.cons_append, lines_cons hc]
    rcases ih with ih | ih
    · exact .inl (by rw [ih])
    · -- An empty line behind no line becomes the line of the character.
      rw [ih]
      by_cases hrest : lines s = []
      · exact .inl (by rw [hrest]; rfl)
      · exact .inr (consLine_append c hrest [[]])

/-- Lines of which each is closed by a line feed are cut again. -/
theorem lines_flatMap {ls : List (List Char)} (h : ∀ l ∈ ls, ∀ c ∈ l, isLineEnd c = false) :
    lines (ls.flatMap (· ++ ['\n'])) = ls := by
  induction ls with
  | nil => rfl
  | cons l ls ih =>
    rw [List.forall_mem_cons] at h
    rw [List.flatMap_cons, List.append_assoc, List.singleton_append, lines_append h.1, ih h.2]

theorem lines_of_isLine {l : List Char} (h : IsLine l) : lines l = [l] := by
  obtain ⟨hne, h⟩ := h
  induction l with
  | nil => exact absurd rfl hne
  | cons c l ih =>
    rw [List.forall_mem_cons] at h
    rw [lines_cons h.1]
    cases l with
    | nil => rfl
    | cons d l =>
      rw [ih (List.cons_ne_nil d l) h.2]
      rfl

/-- Lines that are joined by line feeds are cut again. -/
theorem lines_intercalate {ls : List (List Char)} (h : ∀ l ∈ ls, IsLine l) :
    lines (['\n'].intercalate ls) = ls := by
  induction ls with
  | nil => rfl
  | cons l ls ih =>
    rw [List.forall_mem_cons] at h
    cases ls with
    | nil => rw [List.intercalate_singleton, lines_of_isLine h.1]
    | cons m ls =>
      rw [List.intercalate_cons_cons, List.append_assoc, List.singleton_append,
        lines_append h.1.2, ih h.2]

theorem lines_unlines {ls : List String} (h : ∀ l ∈ ls, IsLine l.toList) :
    lines (unlines ls).toList = ls.map String.toList := by
  rw [unlines, String.toList_intercalate]
  refine lines_intercalate fun l hl => ?_
  obtain ⟨s, hs, rfl⟩ := List.mem_map.1 hl
  exact h s hs

/-! ## Pieces -/

/-- A piece of a text is a run of its characters. -/
theorem infix_of_mem_splitOnP {p : Char → Bool} {s piece : List Char}
    (h : piece ∈ s.splitOnP p) : piece <:+: s := by
  -- Along the text, the first piece starts where the text starts.
  have hfirst : ∀ s : List Char, ∃ first rest, s.splitOnP p = first :: rest ∧ first <+: s ∧
      ∀ piece ∈ rest, piece <:+: s := by
    intro s
    induction s with
    | nil => exact ⟨[], [], by simp, List.prefix_rfl, by simp⟩
    | cons c s ih =>
      obtain ⟨first, rest, hsplit, hprefix, hrest⟩ := ih
      rw [List.splitOnP_cons_eq_if_modifyHead, hsplit]
      by_cases hc : p c = true
      · refine ⟨[], first :: rest, by simp [hc], List.nil_prefix, fun piece hpiece => ?_⟩
        rcases List.mem_cons.1 hpiece with rfl | hpiece
        · exact hprefix.isInfix.trans (List.suffix_cons c s).isInfix
        · exact (hrest piece hpiece).trans (List.suffix_cons c s).isInfix
      · exact ⟨c :: first, rest, by simp [hc], List.prefix_cons_inj c |>.2 hprefix,
          fun piece hpiece => (hrest piece hpiece).trans (List.suffix_cons c s).isInfix⟩
  obtain ⟨first, rest, hsplit, hprefix, hrest⟩ := hfirst s
  rw [hsplit] at h
  rcases List.mem_cons.1 h with rfl | h
  · exact hprefix.isInfix
  · exact hrest piece h

theorem infix_of_mem_words {s w : List Char} (h : w ∈ words s) : w <:+: s :=
  infix_of_mem_splitOnP (List.mem_filter.1 h).1

/-- No piece holds a character at which the text was cut. -/
theorem not_mem_of_mem_splitOn {c : Char} {s piece : List Char} (h : piece ∈ s.splitOn c) :
    c ∉ piece :=
  fun hc => by simpa using eq_false_of_mem_splitOnP h c hc

/-- A text without the character at which it is cut is the only piece. -/
theorem splitOn_of_not_mem {c : Char} {s : List Char} (h : c ∉ s) : s.splitOn c = [s] :=
  List.splitOnP_eq_singleton fun d hd => by
    simp only [beq_eq_false_iff_ne]
    rintro rfl
    exact h hd

/-! ## Blanks around a text -/

theorem words_trimStart (s : List Char) : words (trimStart s) = words s := by
  induction s with
  | nil => rfl
  | cons c s ih =>
    by_cases hc : isBlank c = true
    · rw [show trimStart (c :: s) = trimStart s from List.dropWhile_cons_of_pos hc, ih]
      exact (words_append_blank hc [] s).symm
    · rw [show trimStart (c :: s) = c :: s from List.dropWhile_cons_of_neg hc]

theorem words_trimEnd (s : List Char) : words (trimEnd s) = words s := by
  induction s using List.reverseRecOn with
  | nil => rfl
  | append_singleton s c ih =>
    by_cases hc : isBlank c = true
    · rw [show trimEnd (s ++ [c]) = trimEnd s from List.rdropWhile_concat_pos isBlank s c hc, ih,
        words_append_blank hc, words_nil, List.append_nil]
    · rw [show trimEnd (s ++ [c]) = s ++ [c] from List.rdropWhile_concat_neg isBlank s c hc]

/-- Blanks around a text change none of its words. -/
theorem words_trim (s : List Char) : words (trim s) = words s := by
  rw [trim, words_trimEnd, words_trimStart]

theorem trim_isInfix (s : List Char) : trim s <:+: s :=
  (List.rdropWhile_prefix isBlank (trimStart s)).isInfix.trans
    (List.dropWhile_suffix isBlank).isInfix

/-- A text that starts and ends with characters that are no blanks. -/
structure IsTrimmed (s : List Char) : Prop where
  ne_nil : s ≠ []
  head : isBlank (s.head ne_nil) = false
  getLast : isBlank (s.getLast ne_nil) = false

theorem IsWord.isTrimmed {w : List Char} (h : IsWord w) : IsTrimmed w :=
  ⟨h.1, h.2 _ (List.head_mem h.1), h.2 _ (List.getLast_mem h.1)⟩

/-- Only the outer two of three texts count. -/
theorem IsTrimmed.append {s t : List Char} (hs : IsTrimmed s) (mid : List Char)
    (ht : IsTrimmed t) : IsTrimmed (s ++ mid ++ t) := by
  refine ⟨by simp [hs.ne_nil], ?_, ?_⟩
  · simpa [List.head_append_of_ne_nil hs.ne_nil] using hs.head
  · rw [List.getLast_append_of_ne_nil _ ht.ne_nil]
    exact ht.getLast

theorem IsTrimmed.trim_eq {s : List Char} (h : IsTrimmed s) : trim s = s := by
  have hstart : trimStart s = s := by
    obtain ⟨c, s, rfl⟩ := List.exists_cons_of_ne_nil h.ne_nil
    exact List.dropWhile_cons_of_neg (by simpa using h.head)
  rw [trim, hstart]
  exact List.rdropWhile_eq_self_iff.2 fun _ => by simpa using h.getLast

/-- Joined words start and end without a blank. -/
theorem isTrimmed_intercalate {ws : List (List Char)} (hne : ws ≠ []) (h : ∀ w ∈ ws, IsWord w) :
    IsTrimmed ([' '].intercalate ws) := by
  induction ws with
  | nil => exact absurd rfl hne
  | cons w ws ih =>
    rw [List.forall_mem_cons] at h
    cases ws with
    | nil => simpa using h.1.isTrimmed
    | cons v ws =>
      rw [List.intercalate_cons_cons]
      exact h.1.isTrimmed.append [' '] (ih (List.cons_ne_nil v ws) h.2)

/-- A character of joined texts is a character of one of them, or one between them. -/
theorem mem_intercalate {c : Char} {mid : List Char} {ws : List (List Char)}
    (h : c ∈ mid.intercalate ws) : c ∈ mid ∨ ∃ w ∈ ws, c ∈ w := by
  induction ws with
  | nil => simp at h
  | cons w ws ih =>
    cases ws with
    | nil => exact .inr ⟨w, List.mem_cons_self, by simpa using h⟩
    | cons v ws =>
      rw [List.intercalate_cons_cons, List.append_assoc, List.mem_append, List.mem_append] at h
      rcases h with h | h | h
      · exact .inr ⟨w, List.mem_cons_self, h⟩
      · exact .inl h
      · obtain h | ⟨u, hu, h⟩ := ih h
        · exact .inl h
        · exact .inr ⟨u, List.mem_cons_of_mem w hu, h⟩

/-- A blank before a text is none of what is trimmed. -/
theorem trim_cons {c : Char} (h : isBlank c = true) (s : List Char) : trim (c :: s) = trim s := by
  rw [trim, trim, show trimStart (c :: s) = trimStart s from List.dropWhile_cons_of_pos h]

/-- A blank behind a word is none of what is trimmed. -/
theorem trim_concat {c : Char} (h : isBlank c = true) {w : List Char} (hw : IsWord w) :
    trim (w ++ [c]) = w := by
  obtain ⟨d, w, rfl⟩ := List.exists_cons_of_ne_nil hw.1
  have hstart : trimStart (d :: w ++ [c]) = d :: w ++ [c] :=
    List.dropWhile_cons_of_neg (by simp [hw.2 d List.mem_cons_self])
  rw [trim, hstart, show trimEnd (d :: w ++ [c]) = trimEnd (d :: w) from
    List.rdropWhile_concat_pos isBlank (d :: w) c h]
  exact List.rdropWhile_eq_self_iff.2 fun h => by simp [hw.2 _ (List.getLast_mem h)]

/-- The blank has no other lower-case form. -/
theorem blank_mem_lowercase {s : List Char} (h : ' ' ∈ s) : ' ' ∈ lowercase s :=
  List.mem_flatMap.2 ⟨' ', h, by decide⟩

end GrammarSuite.Text
