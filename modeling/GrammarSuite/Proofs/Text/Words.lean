import GrammarSuite.Text.Letter
import GrammarSuite.Token
import GrammarSuite.Proofs.Text.Spelling
import Mathlib.Data.List.DropRight

/-!
# Words and tokens of joined texts

The words of a text are found again when texts are joined with blanks between them, so that a text
of tokens with single blanks between them has just these tokens.

## Main definitions

* `Text.IsWord`: characters without a blank among them, at least one

## Main results

* `Text.words_append_blank`: a blank sets the words before it apart from those behind it
* `Text.isBlank_eq_false_of_isLetter`, `Text.isBlank_eq_false_of_isUppercase`: letters and
  upper-case characters are no blanks
* `Text.isSpelled_of_mem_words`, `Text.isWord_split`: the words of a spelled text are spelled, and can
  be cut into words
* `Token.isWord_of_mem_tokenize`: tokens are words
* `Token.tokenize_unwords`: the tokens of joined texts are those of the texts, in order
* `Token.tokenize_unwords_of_isWord`: joined words are the tokens
-/

namespace GrammarSuite

namespace Text

/-- A word has characters, and none of them is blank. -/
def IsWord (w : List Char) : Prop := w ≠ [] ∧ ∀ c ∈ w, isBlank c = false

instance (w : List Char) : Decidable (IsWord w) :=
  decidable_of_iff ((!w.isEmpty && w.all fun c => !isBlank c) = true) (by simp [IsWord])

@[simp] theorem words_nil : words [] = [] := rfl

@[simp] theorem not_isWord_nil : ¬ IsWord [] := fun h => h.1 rfl

/-- A blank sets the words before it apart from those behind it. -/
theorem words_append_blank {c : Char} (h : isBlank c = true) (s t : List Char) :
    words (s ++ c :: t) = words s ++ words t := by
  rw [words, List.splitOnP_append_cons s t h, List.filter_append]
  rfl

theorem words_of_isWord {w : List Char} (h : IsWord w) : words w = [w] := by
  rw [words, List.splitOnP_eq_singleton h.2]
  simp [h.1]

/-- The pieces of a text have none of the characters at which it was cut. -/
theorem eq_false_of_mem_splitOnP {p : Char → Bool} {s w : List Char} (h : w ∈ s.splitOnP p) :
    ∀ c ∈ w, p c = false := by
  -- Induction on the text: a cut opens a new piece, and any other character joins the first one.
  induction s generalizing w with
  | nil =>
    obtain rfl : w = [] := by simpa using h
    simp
  | cons c s ih =>
    rw [List.splitOnP_cons_eq_if_modifyHead] at h
    split at h
    · rcases List.mem_cons.1 h with rfl | h
      · simp
      · exact ih h
    · rename_i hc
      obtain ⟨first, rest, hsplit⟩ := List.exists_cons_of_ne_nil (List.splitOnP_ne_nil p s)
      rw [hsplit, List.modifyHead_cons] at h
      rw [hsplit] at ih
      rcases List.mem_cons.1 h with rfl | h
      · intro x hx
        rcases List.mem_cons.1 hx with rfl | hx
        · exact Bool.eq_false_iff.2 hc
        · exact ih List.mem_cons_self x hx
      · exact ih (List.mem_cons_of_mem first h)

theorem isWord_of_mem_words {s w : List Char} (h : w ∈ words s) : IsWord w := by
  obtain ⟨hmem, hne⟩ := List.mem_filter.1 h
  refine ⟨?_, eq_false_of_mem_splitOnP hmem⟩
  rintro rfl
  simp at hne

/-- The words of texts with blanks between them are those of the texts. -/
theorem words_intercalate (ws : List (List Char)) :
    words ([' '].intercalate ws) = ws.flatMap words := by
  induction ws with
  | nil => rfl
  | cons w ws ih =>
    cases ws with
    | nil => simp
    | cons v ws =>
      rw [List.intercalate_cons_cons, List.append_assoc, List.singleton_append,
        words_append_blank (by decide), ih]
      rfl

/-- A text has words unless it is blank throughout. -/
theorem words_ne_nil {s : List Char} {c : Char} (hc : c ∈ s) (h : isBlank c = false) :
    words s ≠ [] := by
  induction s with
  | nil => cases hc
  | cons d s ih =>
    by_cases hd : isBlank d = true
    · -- A blank in front is no part of a word.
      have hmem : c ∈ s := by
        rcases List.mem_cons.1 hc with rfl | hmem
        · rw [hd] at h
          cases h
        · exact hmem
      rw [show words (d :: s) = words s from words_append_blank hd [] s]
      exact ih hmem
    · -- Any other character is in the first piece, which is then a word.
      obtain ⟨first, rest, hsplit⟩ := List.exists_cons_of_ne_nil (List.splitOnP_ne_nil isBlank s)
      rw [words, List.splitOnP_cons_eq_if_modifyHead, if_neg hd, hsplit]
      simp

/-! ## Trimmed texts -/

theorem isBlank_head_trim {s : List Char} (h : trim s ≠ []) :
    isBlank ((trim s).head h) = false := by
  have hstart : trim s <+: trimStart s := List.rdropWhile_prefix isBlank (trimStart s)
  rw [List.IsPrefix.head hstart h]
  exact List.head_dropWhile_not isBlank _

theorem isBlank_getLast_trim {s : List Char} (h : trim s ≠ []) :
    isBlank ((trim s).getLast h) = false :=
  Bool.eq_false_iff.2 (List.rdropWhile_last_not isBlank (trimStart s) h)

/-- A trimmed text is a single word or has at least two of them: a blank in it has words on its two
sides. -/
theorem isWord_trim_or {s : List Char} (h : trim s ≠ []) :
    IsWord (trim s) ∨ 1 < (words (trim s)).length := by
  by_cases hblank : ∀ c ∈ trim s, isBlank c = false
  · exact .inl ⟨h, hblank⟩
  · right
    simp only [not_forall, Bool.not_eq_false] at hblank
    obtain ⟨c, hmem, hc⟩ := hblank
    -- The text starts before the blank and ends behind it, each time with a character of a word.
    have hhead := isBlank_head_trim h
    have hlast := isBlank_getLast_trim h
    obtain ⟨before, after, heq⟩ := List.append_of_mem hmem
    have hbefore : words before ≠ [] := by
      cases before with
      | nil => simp [heq, hc] at hhead
      | cons d before => exact words_ne_nil List.mem_cons_self (by simpa [heq] using hhead)
    have hafter : words after ≠ [] := by
      rcases List.eq_nil_or_concat after with rfl | ⟨after, d, rfl⟩
      · simp [heq, hc] at hlast
      · exact words_ne_nil (c := d) (by simp) (by simpa [heq] using hlast)
    rw [heq, words_append_blank hc, List.length_append]
    have := List.length_pos_iff.2 hbefore
    have := List.length_pos_iff.2 hafter
    omega

/-! ## Blanks are neither letters nor in upper case -/

/-- The code points of the blanks. -/
def blanks : List Nat := [9, 10, 11, 12, 13, 28, 29, 30, 31, 32, 0x85, 0xA0, 0x1680, 0x2000, 0x2001,
  0x2002, 0x2003, 0x2004, 0x2005, 0x2006, 0x2007, 0x2008, 0x2009, 0x200A, 0x2028, 0x2029, 0x202F,
  0x205F, 0x3000]

theorem toNat_mem_blanks {c : Char} (h : isBlank c = true) : c.toNat ∈ blanks := by
  simp only [isBlank, Bool.or_eq_true, Bool.and_eq_true, decide_eq_true_eq, beq_iff_eq] at h
  simp only [blanks, List.mem_cons, List.not_mem_nil, or_false]
  omega

theorem isBlank_eq_false_of_isLetter {c : Char} (h : isLetter c = true) : isBlank c = false := by
  -- There are few blanks, so each of them is looked up in the table of letters.
  have hnone : ∀ n ∈ blanks, isLetter (Char.ofNat n) = false := by decide +kernel
  refine Bool.eq_false_iff.2 fun hblank => ?_
  have hfalse := hnone c.toNat (toNat_mem_blanks hblank)
  rw [Char.ofNat_toNat, h] at hfalse
  cases hfalse

theorem isBlank_eq_false_of_isUppercase {c : Char} (h : isUppercase c = true) :
    isBlank c = false := by
  have hnone : ∀ n ∈ blanks, isUppercase (Char.ofNat n) = false := by decide +kernel
  refine Bool.eq_false_iff.2 fun hblank => ?_
  have hfalse := hnone c.toNat (toNat_mem_blanks hblank)
  rw [Char.ofNat_toNat, h] at hfalse
  cases hfalse

/-! ## Words of spelled texts -/

theorem isPlain_of_isBlank {c : Char} (h : isBlank c = true) : IsPlain c := by
  have hall : ∀ n ∈ blanks, n < 0x10F000 := by decide
  exact hall c.toNat (toNat_mem_blanks h)

/-- The words of a spelled text are spelled. -/
theorem isSpelled_of_mem_words {s w : List Char} (h : IsSpelled s) (hw : w ∈ words s) :
    IsSpelled w := by
  by_cases hblank : ∃ c ∈ s, isBlank c = true
  · -- The sides of a blank are spelled, and each word is on one of them.
    obtain ⟨c, hmem, hc⟩ := hblank
    obtain ⟨before, after, rfl⟩ := List.append_of_mem hmem
    obtain ⟨hbefore, hafter⟩ := h.split (isPlain_of_isBlank hc)
    rw [words_append_blank hc, List.mem_append] at hw
    rcases hw with hw | hw
    · exact isSpelled_of_mem_words hbefore hw
    · exact isSpelled_of_mem_words hafter hw
  · have hnone : ∀ c ∈ s, isBlank c = false := fun c hc =>
      Bool.eq_false_iff.2 fun hb => hblank ⟨c, hc, hb⟩
    by_cases hs : s = []
    · subst hs
      cases hw
    · rw [words_of_isWord ⟨hs, hnone⟩, List.mem_singleton] at hw
      exact hw ▸ h
termination_by s.length
decreasing_by all_goals subst_vars; simp only [List.length_append, List.length_cons]; omega

theorem spell_ne_nil (n : Nat) : spell n ≠ [] := by
  unfold spell
  split
  · simp
  · split <;> simp

/-- Code points of a spelled word make a word. -/
theorem isWord_ofPoints {t : String} (hspelled : IsSpelled t.toList) (hword : IsWord t.toList)
    {ns : List Nat} (hne : ns ≠ []) (hmem : ∀ n ∈ ns, n ∈ points t) : IsWord (ofPoints ns).toList := by
  rw [ofPoints, String.toList_ofList]
  constructor
  · obtain ⟨n, ns, rfl⟩ := List.exists_cons_of_ne_nil hne
    simp [spell_ne_nil]
  · intro c hc
    obtain ⟨n, hn, hcn⟩ := List.mem_flatMap.1 hc
    -- What spells a code point of the word stands in the word.
    refine hword.2 c ?_
    rw [← hspelled]
    exact List.mem_flatMap.2 ⟨n, hmem n hn, hcn⟩

/-- **A spelled word is cut into words.** -/
theorem isWord_split {t : String} {n : Nat} (hspelled : IsSpelled t.toList)
    (hword : IsWord t.toList) (hpos : 0 < n) (hlt : n < size t) :
    IsWord (Text.split n t).1.toList ∧ IsWord (Text.split n t).2.toList := by
  unfold size at hlt
  refine ⟨isWord_ofPoints hspelled hword ?_ fun k hk => List.mem_of_mem_take hk,
    isWord_ofPoints hspelled hword ?_ fun k hk => List.mem_of_mem_drop hk⟩
  · rw [← List.length_pos_iff, List.length_take]
    omega
  · rw [← List.length_pos_iff, List.length_drop]
    omega

end Text

namespace Token

open Text

/-- The tokens of joined texts are those of the texts, one after the other. -/
theorem tokenize_unwords (ts : List String) : tokenize (unwords ts) = ts.flatMap tokenize := by
  have hjoined : (unwords ts).toList = [' '].intercalate (ts.map String.toList) := by
    rw [unwords, String.toList_intercalate]
    rfl
  rw [tokenize, hjoined, words_intercalate, List.flatMap_map, List.map_flatMap]
  rfl

theorem tokenize_of_isWord {t : String} (h : IsWord t.toList) : tokenize t = [t] := by
  rw [tokenize, words_of_isWord h]
  simp

/-- Joined words are the tokens. -/
theorem tokenize_unwords_of_isWord {ts : List String} (h : ∀ t ∈ ts, IsWord t.toList) :
    tokenize (unwords ts) = ts := by
  rw [tokenize_unwords]
  induction ts with
  | nil => rfl
  | cons t ts ih =>
    rw [List.flatMap_cons, tokenize_of_isWord (h t List.mem_cons_self),
      ih fun u hu => h u (List.mem_cons_of_mem t hu), List.singleton_append]

theorem isWord_of_mem_tokenize {text t : String} (h : t ∈ tokenize text) : IsWord t.toList := by
  obtain ⟨w, hw, rfl⟩ := List.mem_map.1 h
  rw [String.toList_ofList]
  exact isWord_of_mem_words hw

theorem isSpelled_of_mem_tokenize {text t : String} (h : IsSpelled text.toList)
    (ht : t ∈ tokenize text) : IsSpelled t.toList := by
  obtain ⟨w, hw, rfl⟩ := List.mem_map.1 ht
  rw [String.toList_ofList]
  exact isSpelled_of_mem_words h hw

end Token

end GrammarSuite
