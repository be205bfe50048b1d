import GrammarSuite.Grammar.Reader
import GrammarSuite.Proofs.Text.Words
import Mathlib.Data.List.Forall2

/-!
# The format of a rule

What a line without its comment must look like to be a rule, which rule it is, and why it is none
otherwise, said without reference to how lines are read. Reading a line is then shown to follow this
format in both directions.

## Main definitions

* `Format.IsNonterminal`: the spelling of nonterminals
* `Format.IsCut`: a text with one arrow, cut at it
* `Format.IsBody`: the body that an alternative stands for
* `Format.IsRule`, `Format.IsFault`: the rule that a text is, and the fault of a text that is none

## Main results

* `splitArrow_eq_pair_iff`: two pieces between arrows are a cut
* `Rule.ofLine_eq_ok_iff`, `Rule.ofLine_eq_error_iff`: a line is read as the format says
-/

namespace GrammarSuite

open Text

namespace Format

/-- A word stands for a nonterminal if it is a single upper-case character, or if it has letters only
and starts with an upper-case one. -/
def IsNonterminal (w : List Char) : Prop :=
  (∃ c, w = [c] ∧ isUppercase c = true) ∨
    ∃ c rest, w = c :: rest ∧ isUppercase c = true ∧ ∀ x ∈ w, isLetter x = true

/-- The arrow between the head and the alternatives of a rule. -/
def arrow : List Char := ['-', '>']

/-- The number of places at which an arrow stands. -/
def arrowCount (s : List Char) : Nat := s.tails.countP (arrow.isPrefixOf ·)

/-- A text with exactly one arrow, cut into what stands before and behind it. -/
structure IsCut (content before after : List Char) : Prop where
  eq : content = before ++ arrow ++ after
  count : arrowCount content = 1

/-- The symbol of a word has it as its name, and is a nonterminal exactly if it is spelled so. -/
def IsSymbol (w : List Char) (s : Symbol) : Prop :=
  s.name = String.ofList w ∧ (s.isNonterminal = true ↔ IsNonterminal w)

/-- An alternative is empty if it has no characters but blanks, or if it spells out epsilon. -/
def IsEmpty (alternative : List Char) : Prop :=
  trim alternative = [] ∨
    lowercase (trim alternative) ∈ [['ε'], "epsilon".toList, "lambda".toList]

/-- An alternative stands for the symbols of its words, or for nothing if it is empty. -/
def IsBody (alternative : List Char) (body : Form) : Prop :=
  (IsEmpty alternative ∧ body = []) ∨
    ¬ IsEmpty alternative ∧ List.Forall₂ IsSymbol (words alternative) body

/-- A text is a rule if it has exactly one arrow, with a nonterminal before it. -/
def WellFormed (content : List Char) : Prop :=
  ∃ before after, IsCut content before after ∧ IsNonterminal (trim before)

/-- The rule of a text: the nonterminal before the arrow, with the bodies of the alternatives behind
it. -/
def IsRule (content : List Char) (r : Rule) : Prop :=
  ∃ before after, IsCut content before after ∧ IsNonterminal (trim before) ∧
    r.head = String.ofList (trim before) ∧ List.Forall₂ IsBody (after.splitOn '|') r.bodies

/-- Why a text is no rule. -/
inductive IsFault (content : List Char) : RuleFault → Prop
  | arrowCount (h : arrowCount content ≠ 1) : IsFault content .arrowCount
  | emptyHead {before after} (hcut : IsCut content before after) (h : trim before = []) :
    IsFault content .emptyHead
  | severalWords {before after} (hcut : IsCut content before after)
    (h : 1 < (words (trim before)).length) :
    IsFault content (.severalWords (String.ofList (trim before)))
  | terminalHead {before after} (hcut : IsCut content before after)
    (hword : IsWord (trim before)) (h : ¬ IsNonterminal (trim before)) :
    IsFault content (.terminalHead (String.ofList (trim before)))

/-! ## Words -/

/-- A nonterminal has no blanks. -/
theorem IsNonterminal.isWord {w : List Char} (h : IsNonterminal w) : IsWord w := by
  rcases h with ⟨c, rfl, hc⟩ | ⟨c, rest, rfl, -, hletters⟩
  · refine ⟨List.cons_ne_nil c [], fun x hx => ?_⟩
    obtain rfl := List.mem_singleton.1 hx
    exact isBlank_eq_false_of_isUppercase hc
  · exact ⟨List.cons_ne_nil c rest, fun x hx => isBlank_eq_false_of_isLetter (hletters x hx)⟩

end Format

open Format

theorem isNonterminalSpelling_iff {w : List Char} :
    isNonterminalSpelling w = true ↔ IsNonterminal w := by
  cases w with
  | nil => simp [isNonterminalSpelling, IsNonterminal]
  | cons c rest =>
    rw [isNonterminalSpelling, Bool.and_eq_true, Bool.or_eq_true, List.isEmpty_iff,
      List.all_eq_true]
    constructor
    · rintro ⟨hc, rfl | hletters⟩
      · exact .inl ⟨c, rfl, hc⟩
      · exact .inr ⟨c, rest, rfl, hc, hletters⟩
    · rintro (⟨_, heq, hc⟩ | ⟨_, _, heq, hc, hletters⟩)
      · obtain ⟨rfl, rfl⟩ := List.cons.inj heq
        exact ⟨hc, .inl rfl⟩
      · obtain ⟨rfl, rfl⟩ := List.cons.inj heq
        exact ⟨hc, .inr hletters⟩

namespace Format

/-- Lists are related item by item by the graph of a function if it maps one to the other. -/
theorem forall₂_iff_map_eq {α β : Type} {R : α → β → Prop} {f : α → β}
    (h : ∀ a b, R a b ↔ f a = b) {l : List α} {m : List β} :
    List.Forall₂ R l m ↔ l.map f = m := by
  have hgraph : R = fun a b => f a = b := by
    funext a b
    exact propext (h a b)
  rw [hgraph, ← List.forall₂_map_left_iff, List.forall₂_eq_eq_eq]

theorem isSymbol_iff {w : List Char} {s : Symbol} : IsSymbol w s ↔ Symbol.ofWord w = s := by
  rw [IsSymbol, ← isNonterminalSpelling_iff, Symbol.ofWord]
  cases s with
  | terminal n => by_cases h : isNonterminalSpelling w = true <;>
      simp [h, Symbol.name, Symbol.isNonterminal, eq_comm]
  | nonterminal n => by_cases h : isNonterminalSpelling w = true <;>
      simp [h, Symbol.name, Symbol.isNonterminal, eq_comm]

theorem isEmpty_iff {alternative : List Char} :
    IsEmpty alternative ↔ isEpsilonSpelling (trim alternative) = true := by
  rw [isEpsilonSpelling, Bool.or_eq_true, List.isEmpty_iff, List.contains_iff_mem]
  rfl

theorem isBody_iff {alternative : List Char} {body : Form} :
    IsBody alternative body ↔ readBody alternative = body := by
  rw [IsBody, forall₂_iff_map_eq (R := IsSymbol) fun _ _ => isSymbol_iff, isEmpty_iff, readBody]
  by_cases h : isEpsilonSpelling (trim alternative) = true <;> simp [h, eq_comm]

theorem forall₂_isBody_iff {alternatives : List (List Char)} {bodies : List Form} :
    List.Forall₂ IsBody alternatives bodies ↔ alternatives.map readBody = bodies :=
  forall₂_iff_map_eq (R := IsBody) fun _ _ => isBody_iff

end Format

/-! ## Arrows -/

/-- A character that does not start an arrow belongs to the first piece. -/
theorem splitArrow_cons {c : Char} {s : List Char} (h : ¬ arrow <+: c :: s) :
    splitArrow (c :: s) = (splitArrow s).modifyHead (c :: ·) := by
  rw [splitArrow]
  rintro rest rfl rfl
  exact h ⟨rest, rfl⟩

/-- The pieces are the text again, with arrows between them. -/
theorem intercalate_splitArrow (s : List Char) : arrow.intercalate (splitArrow s) = s := by
  fun_induction splitArrow s with
  | case1 => rfl
  | case2 rest ih =>
    obtain ⟨piece, pieces, hsplit⟩ := List.exists_cons_of_ne_nil (splitArrow_ne_nil rest)
    rw [hsplit, List.intercalate_cons_cons, ← hsplit, ih]
    rfl
  | case3 c rest hne ih =>
    obtain ⟨piece, pieces, hsplit⟩ := List.exists_cons_of_ne_nil (splitArrow_ne_nil rest)
    rw [hsplit] at ih ⊢
    rw [List.modifyHead_cons, ← ih]
    cases pieces with
    | nil => simp
    | cons next pieces => simp [List.intercalate_cons_cons]

/-- There is one piece more than there are arrows. -/
theorem length_splitArrow (s : List Char) : (splitArrow s).length = arrowCount s + 1 := by
  fun_induction splitArrow s with
  | case1 => rfl
  | case2 rest ih =>
    -- The arrow counts at its first character; none starts at the second.
    rw [List.length_cons, ih]
    simp [arrowCount, arrow, List.isPrefixOf]
  | case3 c rest hne ih =>
    -- A character that opens no arrow adds neither an arrow nor a piece.
    have hno : arrow.isPrefixOf (c :: rest) = false := by
      refine Bool.eq_false_iff.2 fun hprefix => ?_
      obtain ⟨after, hafter⟩ := List.isPrefixOf_iff_prefix.1 hprefix
      obtain ⟨rfl, rfl⟩ := List.cons.inj hafter
      exact hne after rfl rfl
    rw [List.length_modifyHead, ih]
    simp [arrowCount, hno]

/-- An arrow sets the pieces before it apart from those behind it: no arrow starts before it and ends
in it. -/
theorem splitArrow_append (before after : List Char) :
    splitArrow (before ++ arrow ++ after) = splitArrow before ++ splitArrow after := by
  fun_induction splitArrow before with
  | case1 => rfl
  | case2 rest ih => simpa using ih
  | case3 c rest hne ih =>
    have hno : ¬ arrow <+: c :: (rest ++ arrow ++ after) := by
      rintro ⟨tail, htail⟩
      obtain ⟨hc, htail⟩ := List.cons.inj htail
      -- Behind the last character stands the `-` of the arrow, which would have to be `>`.
      cases rest with
      | nil => simp [arrow] at htail
      | cons d rest =>
        obtain ⟨hd, -⟩ := List.cons.inj htail
        exact hne rest hc.symm (by rw [← hd])
    rw [List.cons_append, List.cons_append, splitArrow_cons hno, ih]
    obtain ⟨piece, pieces, hsplit⟩ := List.exists_cons_of_ne_nil (splitArrow_ne_nil rest)
    rw [hsplit]
    rfl

/-- A text without arrows is its only piece. -/
theorem splitArrow_eq_singleton {s : List Char} (h : (splitArrow s).length = 1) :
    splitArrow s = [s] := by
  obtain ⟨piece, hpiece⟩ := List.length_eq_one_iff.1 h
  have hjoined := intercalate_splitArrow s
  rw [hpiece, List.intercalate_singleton] at hjoined
  rw [hpiece, hjoined]

/-- There are two pieces exactly if there is one arrow, and they stand on its two sides. -/
theorem splitArrow_eq_pair_iff {content before after : List Char} :
    splitArrow content = [before, after] ↔ IsCut content before after := by
  constructor
  · intro h
    have hjoined := intercalate_splitArrow content
    have hlength := length_splitArrow content
    rw [h] at hjoined hlength
    refine ⟨?_, Nat.succ.inj hlength.symm⟩
    rw [← hjoined, List.intercalate_cons_cons, List.intercalate_singleton]
  · rintro ⟨rfl, hcount⟩
    -- There are two pieces in all and at least one on each side, so each side is its only piece.
    have hlength := length_splitArrow (before ++ arrow ++ after)
    have hbefore := List.length_pos_iff.2 (splitArrow_ne_nil before)
    have hafter := List.length_pos_iff.2 (splitArrow_ne_nil after)
    rw [splitArrow_append] at hlength ⊢
    rw [List.length_append] at hlength
    rw [splitArrow_eq_singleton (show (splitArrow before).length = 1 by omega),
      splitArrow_eq_singleton (show (splitArrow after).length = 1 by omega)]
    rfl

/-- A text has at most one cut. -/
theorem Format.IsCut.unique {content before after before' after' : List Char}
    (h : IsCut content before after) (h' : IsCut content before' after') :
    before = before' ∧ after = after' := by
  rw [← splitArrow_eq_pair_iff] at h h'
  rw [h] at h'
  simpa using h'

/-- A text with one arrow has a cut. -/
theorem Format.exists_isCut {content : List Char} (h : arrowCount content = 1) :
    ∃ before after, IsCut content before after := by
  have hlength := length_splitArrow content
  rw [h] at hlength
  obtain ⟨before, after, hpieces⟩ := List.length_eq_two.1 hlength
  exact ⟨before, after, splitArrow_eq_pair_iff.1 hpieces⟩

/-! ## Reading a line -/

/-- A single word before the arrow is the head if it is a nonterminal. -/
theorem readHead_of_isWord {s : List Char} (h : IsWord (trim s)) :
    readHead s = if isNonterminalSpelling (trim s) then .ok (String.ofList (trim s))
      else .error (.terminalHead (String.ofList (trim s))) := by
  rw [readHead]
  rw [if_neg (by simpa using h.1), if_neg (by simp [words_of_isWord h])]

/-- The text before the arrow is read as a head exactly if it is a nonterminal. -/
theorem readHead_eq_ok_iff {s : List Char} {head : String} :
    readHead s = .ok head ↔ IsNonterminal (trim s) ∧ String.ofList (trim s) = head := by
  rw [← isNonterminalSpelling_iff]
  constructor
  · intro h
    rw [readHead] at h
    split at h
    · cases h
    · split at h
      · cases h
      · split at h
        · rename_i hspelling
          exact ⟨hspelling, Except.ok.inj h⟩
        · cases h
  · rintro ⟨hspelling, rfl⟩
    rw [readHead_of_isWord (isNonterminalSpelling_iff.1 hspelling).isWord, if_pos hspelling]

/-- The text before the arrow is refused if it is blank, has several words, or is a single word that
is no nonterminal. -/
theorem readHead_eq_error_iff {s : List Char} {fault : RuleFault} :
    readHead s = .error fault ↔
      (trim s = [] ∧ .emptyHead = fault) ∨
      (1 < (words (trim s)).length ∧ .severalWords (String.ofList (trim s)) = fault) ∨
      IsWord (trim s) ∧ ¬ IsNonterminal (trim s) ∧
        .terminalHead (String.ofList (trim s)) = fault := by
  by_cases hnil : trim s = []
  · simp [readHead, hnil]
  · -- The three remaining branches of the reader: a single word, spelled one way or the other, and
    -- several words.
    rcases isWord_trim_or hnil with hword | hseveral
    · rw [readHead_of_isWord hword, ← isNonterminalSpelling_iff]
      by_cases hspelling : isNonterminalSpelling (trim s) = true <;>
        simp [hnil, hword, hspelling, words_of_isWord hword]
    · have hnot : ¬ IsWord (trim s) := fun hword => by simp [words_of_isWord hword] at hseveral
      rw [readHead]
      rw [if_neg (by simpa using hnil), if_pos (by omega)]
      simp [hnil, hseveral, hnot]

/-- **A line is read as the rule that it is.** -/
theorem Rule.ofLine_eq_ok_iff {content : List Char} {r : Rule} :
    Rule.ofLine content = .ok r ↔ IsRule content r := by
  rw [Rule.ofLine]
  constructor
  · intro h
    split at h
    · rename_i before after hsplit
      rcases hhead : readHead before with fault | head
      · simp [hhead, bind, Except.bind] at h
      · simp only [hhead, bind, Except.bind, Except.ok.injEq] at h
        subst h
        obtain ⟨hnonterminal, rfl⟩ := readHead_eq_ok_iff.1 hhead
        exact ⟨before, after, splitArrow_eq_pair_iff.1 hsplit, hnonterminal, rfl,
          forall₂_isBody_iff.2 rfl⟩
    · cases h
  · rintro ⟨before, after, hcut, hnonterminal, hhead, hbodies⟩
    rw [splitArrow_eq_pair_iff.2 hcut]
    obtain ⟨head, bodies⟩ := r
    dsimp only at hhead hbodies
    subst hhead
    have hread := readHead_eq_ok_iff.2 ⟨hnonterminal, rfl⟩
    simp [hread, forall₂_isBody_iff.1 hbodies, bind, Except.bind]

/-- **A line is refused for the fault that it has.** -/
theorem Rule.ofLine_eq_error_iff {content : List Char} {fault : RuleFault} :
    Rule.ofLine content = .error fault ↔ IsFault content fault := by
  by_cases hcount : arrowCount content = 1
  · -- With one arrow there is one cut, and the fault is that of the text before it.
    obtain ⟨before, after, hcut⟩ := exists_isCut hcount
    have hread : Rule.ofLine content = .error fault ↔ readHead before = .error fault := by
      rw [Rule.ofLine, splitArrow_eq_pair_iff.2 hcut]
      rcases hhead : readHead before with _ | head <;> simp [hhead, bind, Except.bind]
    rw [hread, readHead_eq_error_iff]
    constructor
    · rintro (⟨hnil, rfl⟩ | ⟨hseveral, rfl⟩ | ⟨hword, hnot, rfl⟩)
      · exact .emptyHead hcut hnil
      · exact .severalWords hcut hseveral
      · exact .terminalHead hcut hword hnot
    · intro h
      cases h with
      | arrowCount h => exact absurd hcount h
      | emptyHead hcut' hnil =>
        obtain ⟨rfl, rfl⟩ := hcut.unique hcut'
        exact .inl ⟨hnil, rfl⟩
      | severalWords hcut' hseveral =>
        obtain ⟨rfl, rfl⟩ := hcut.unique hcut'
        exact .inr (.inl ⟨hseveral, rfl⟩)
      | terminalHead hcut' hword hnot =>
        obtain ⟨rfl, rfl⟩ := hcut.unique hcut'
        exact .inr (.inr ⟨hword, hnot, rfl⟩)
  · -- With any other number there is no cut, and the number is the fault.
    have hnone : ∀ before after, ¬ IsCut content before after := fun _ _ hcut => hcount hcut.count
    have hread : Rule.ofLine content = .error .arrowCount := by
      rw [Rule.ofLine]
      split
      · rename_i hsplit
        exact absurd (splitArrow_eq_pair_iff.1 hsplit) (hnone _ _)
      · rfl
    rw [hread, Except.error.injEq]
    constructor
    · rintro rfl
      exact .arrowCount hcount
    · intro h
      cases h with
      | arrowCount h => rfl
      | emptyHead hcut _ => exact absurd hcut (hnone _ _)
      | severalWords hcut _ => exact absurd hcut (hnone _ _)
      | terminalHead hcut _ _ => exact absurd hcut (hnone _ _)

/-- A text is well formed exactly if it is a rule. -/
theorem Format.wellFormed_iff {content : List Char} :
    WellFormed content ↔ ∃ r, IsRule content r := by
  constructor
  · rintro ⟨before, after, hcut, hnonterminal⟩
    exact ⟨⟨_, _⟩, before, after, hcut, hnonterminal, rfl, forall₂_isBody_iff.2 rfl⟩
  · rintro ⟨r, before, after, hcut, hnonterminal, -, -⟩
    exact ⟨before, after, hcut, hnonterminal⟩

end GrammarSuite
