import GrammarSuite.Proofs.Grammar.Reading
import GrammarSuite.Proofs.Text.Lines
import GrammarSuite.Report.Basic
import Mathlib.Data.List.Infix

/-!
# Grammars written back as texts

The productions of a grammar are exported as they are shown, each with an arrow sign of its own.
With that sign spelled in the way of the format, and one production a line, they are a text again.
If the grammar was read from a text, then this text gives the same grammar: no name of it has a sign
of the format in it, and no body of one symbol spells out epsilon, for otherwise the symbols would
not have been read as they were.

## Main definitions

* `Text.replaceFirst`: a text with its first occurrence of a part replaced
* `Format.IsPlain`: a word without the signs of the format
* `Format.IsReadable`: a production that can be read from a rule
* `Production.line`, `Production.rule`: the line of a production, and the rule that it is
* `Grammar.asLine`: the line of an exported production

## Main results

* `Format.IsRule.isReadable`: what is read can be read again
* `Format.IsReadable.isRule`: the line of a readable production is its rule
* `Reader.foldl_addRule_rule`: rules may be entered one production at a time
* `Grammar.ofText_exported`: a grammar of a text is read again from its exported productions
-/

namespace GrammarSuite

open Text

/-- A text with `new` in place of the first occurrence of `old`, if there is one. The part `old` is
not empty. -/
def Text.replaceFirst (old new : List Char) : List Char → List Char
  | [] => []
  | c :: s =>
    if old.isPrefixOf (c :: s) then new ++ (c :: s).drop old.length
    else c :: replaceFirst old new s

/-- The first occurrence stands behind a text without its first character. -/
theorem Text.replaceFirst_append {c : Char} {before : List Char} (h : c ∉ before)
    (old new after : List Char) :
    replaceFirst (c :: old) new (before ++ (c :: old) ++ after) = before ++ new ++ after := by
  induction before with
  | nil =>
    have hprefix : (c :: old).isPrefixOf (c :: (old ++ after)) = true :=
      List.isPrefixOf_iff_prefix.2 (List.prefix_append (c :: old) after)
    rw [List.nil_append, List.cons_append, replaceFirst, if_pos hprefix]
    simp
  | cons d before ih =>
    rw [List.mem_cons, not_or] at h
    obtain ⟨hd, hbefore⟩ := h
    have hno : (c :: old).isPrefixOf (d :: (before ++ (c :: old) ++ after)) = false := by
      simp [List.isPrefixOf, hd]
    rw [List.cons_append, List.cons_append, replaceFirst, hno, if_neg Bool.false_ne_true,
      ih hbefore]
    rfl

namespace Production

/-- The line of a production: as it is shown, with the arrow of the format. -/
def line (p : Production) : List Char := p.head.toList ++ " -> ".toList ++ p.body.text.toList

/-- The rule of a single production. -/
def rule (p : Production) : Rule := ⟨p.head, [p.body]⟩

end Production

namespace Format

/-! ## Arrows -/

theorem arrowCount_cons (c : Char) (s : List Char) :
    arrowCount (c :: s) = arrowCount s + if arrow.isPrefixOf (c :: s) then 1 else 0 := by
  simp [arrowCount, List.tails, List.countP_cons]

theorem arrowCount_eq_zero_iff {s : List Char} : arrowCount s = 0 ↔ ¬ arrow <:+: s := by
  simp only [arrowCount, List.countP_eq_zero, List.mem_tails, List.isPrefixOf_iff_prefix,
    List.infix_iff_prefix_suffix, not_exists, not_and]
  exact forall_congr' fun _ => ⟨fun h hprefix hsuffix => h hsuffix hprefix,
    fun h hsuffix hprefix => h hprefix hsuffix⟩

/-- A character that is no part of an arrow keeps the arrows on its two sides apart. -/
theorem arrowCount_append_cons {c : Char} (h : c ∉ arrow) (s t : List Char) :
    arrowCount (s ++ c :: t) = arrowCount s + arrowCount t := by
  simp only [arrow, List.mem_cons, List.not_mem_nil, or_false, not_or] at h
  induction s with
  | nil =>
    rw [List.nil_append, arrowCount_cons]
    simp [arrow, List.isPrefixOf, Ne.symm h.1, arrowCount]
  | cons d s ih =>
    rw [List.cons_append, arrowCount_cons, arrowCount_cons, ih]
    -- Whether an arrow starts at a character is seen from it and the next one.
    cases s with
    | nil => simp [arrow, List.isPrefixOf, Ne.symm h.2]
    | cons e s =>
      simp only [arrow, List.isPrefixOf, List.cons_append]
      omega

theorem arrowCount_append_arrow (before after : List Char) :
    arrowCount (before ++ arrow ++ after) = arrowCount before + 1 + arrowCount after := by
  have hlength := congrArg List.length (splitArrow_append before after)
  rw [List.length_append, length_splitArrow, length_splitArrow, length_splitArrow] at hlength
  omega

/-- Joining texts with blanks makes no arrow. -/
theorem arrowCount_intercalate {ws : List (List Char)} (h : ∀ w ∈ ws, arrowCount w = 0) :
    arrowCount ([' '].intercalate ws) = 0 := by
  induction ws with
  | nil => rfl
  | cons w ws ih =>
    rw [List.forall_mem_cons] at h
    cases ws with
    | nil => rw [List.intercalate_singleton, h.1]
    | cons v ws =>
      rw [List.intercalate_cons_cons, List.append_assoc, List.singleton_append,
        arrowCount_append_cons (by decide), h.1, ih h.2]

/-- The rules of a text have no comments. -/
theorem noSharp_of_mem_contents {ls : List (List Char)} {content : List Char}
    (h : content ∈ contents ls) : '#' ∉ content := by
  obtain ⟨line, -, rfl⟩ := List.mem_map.1 (List.mem_filter.1 h).1
  intro hmem
  simpa using List.mem_takeWhile_imp ((trim_isInfix _).subset hmem)

/-! ## Names -/

/-- A word that has none of the signs of the format in it. -/
structure IsPlain (w : List Char) : Prop where
  isWord : IsWord w
  noSharp : '#' ∉ w
  noBar : '|' ∉ w
  noArrow : arrowCount w = 0

/-- The signs of the format are neither letters nor in upper case. -/
theorem IsNonterminal.isPlain {w : List Char} (h : IsNonterminal w) : IsPlain w := by
  have hsign : (['#', '|', '-'].all fun c => !isUppercase c && !isLetter c) = true := by
    decide +kernel
  have hnot : ∀ c ∈ ['#', '|', '-'], c ∉ w := by
    intro c hc hmem
    obtain ⟨hupper, hletter⟩ : isUppercase c = false ∧ isLetter c = false := by
      simpa using List.all_eq_true.1 hsign c hc
    rcases h with ⟨d, rfl, hd⟩ | ⟨d, rest, rfl, -, hletters⟩
    · rw [List.mem_singleton.1 hmem, hd] at hupper
      cases hupper
    · rw [hletters c hmem] at hletter
      cases hletter
  refine ⟨h.isWord, hnot '#' (by simp), hnot '|' (by simp), arrowCount_eq_zero_iff.2 ?_⟩
  exact fun harrow => hnot '-' (by simp) (harrow.subset (by simp [arrow]))

/-- A production that can be read from a rule: its head is a nonterminal, its names are plain and
tell the kinds of their symbols, and a body of one symbol does not spell out epsilon. -/
structure IsReadable (p : Production) : Prop where
  head : IsNonterminal p.head.toList
  plain : ∀ s ∈ p.body, IsPlain s.name.toList
  kind : ∀ s ∈ p.body, Symbol.ofWord s.name.toList = s
  single : ∀ s, p.body = [s] → isEpsilonSpelling s.name.toList = false

@[simp] theorem toList_name_ofWord (w : List Char) : (Symbol.ofWord w).name.toList = w := by
  unfold Symbol.ofWord
  split <;> simp [Symbol.name]

/-- The words of an alternative have no sign that the alternative does not have. -/
theorem isReadable_readBody {head : String} (hhead : IsNonterminal head.toList)
    {alternative : List Char} (hsharp : '#' ∉ alternative) (hbar : '|' ∉ alternative)
    (harrow : ¬ arrow <:+: alternative) : IsReadable ⟨head, readBody alternative⟩ := by
  have hword : ∀ s ∈ readBody alternative, ∃ w ∈ words alternative, Symbol.ofWord w = s := by
    intro s hs
    unfold readBody at hs
    split at hs
    · cases hs
    · exact List.mem_map.1 hs
  refine ⟨hhead, fun s hs => ?_, fun s hs => ?_, fun s hs => ?_⟩
  · obtain ⟨w, hw, rfl⟩ := hword s hs
    have hpart := infix_of_mem_words hw
    rw [toList_name_ofWord]
    exact ⟨isWord_of_mem_words hw, fun h => hsharp (hpart.subset h),
      fun h => hbar (hpart.subset h),
      arrowCount_eq_zero_iff.2 fun h => harrow (h.trans hpart)⟩
  · obtain ⟨w, -, rfl⟩ := hword s hs
    rw [toList_name_ofWord]
  · -- The only word of the alternative is the alternative itself, which is not epsilon.
    dsimp only [readBody] at hs
    split at hs
    · cases hs
    · rename_i hspelling
      obtain ⟨w, hwords, rfl⟩ := List.map_eq_singleton_iff.1 hs
      have hne : trim alternative ≠ [] := by
        intro h
        simp [h, isEpsilonSpelling] at hspelling
      have htrim : trim alternative = w := by
        rcases isWord_trim_or hne with h | h
        · have := words_of_isWord h
          rw [words_trim, hwords] at this
          exact (List.cons.inj this).1.symm
        · simp [words_trim, hwords] at h
      rw [toList_name_ofWord, ← htrim]
      exact Bool.eq_false_iff.2 hspelling

/-- **What is read from a rule can be read again.** -/
theorem IsRule.isReadable {content : List Char} {rule : Rule} (hrule : IsRule content rule)
    (hsharp : '#' ∉ content) {p : Production} (hp : p ∈ rule.productions) : IsReadable p := by
  obtain ⟨before, after, ⟨rfl, hcount⟩, hnonterminal, hhead, hbodies⟩ := hrule
  obtain ⟨body, hbody, rfl⟩ := List.mem_map.1 hp
  rw [← forall₂_isBody_iff.1 hbodies] at hbody
  obtain ⟨alternative, halternative, rfl⟩ := List.mem_map.1 hbody
  have hpart : alternative <:+: after := infix_of_mem_splitOnP halternative
  refine isReadable_readBody (by simpa [hhead] using hnonterminal) (fun h => hsharp ?_)
    (not_mem_of_mem_splitOn halternative) fun h => ?_
  · exact List.mem_append_right _ (hpart.subset h)
  · -- The only arrow is the one at which the rule was cut.
    rw [arrowCount_append_arrow] at hcount
    exact arrowCount_eq_zero_iff.1 (show arrowCount after = 0 by omega) (h.trans hpart)

/-! ## The line of a production -/

theorem toList_text {form : Form} (h : form ≠ []) :
    form.text.toList = [' '].intercalate (form.map fun s => s.name.toList) := by
  have hempty : form.isEmpty = false := by simpa using h
  rw [Form.text, hempty, if_neg Bool.false_ne_true, unwords, String.toList_intercalate,
    List.map_map]
  rfl

/-- The text of a form with plain names is plain but for its blanks. -/
theorem isTrimmed_text {form : Form} (h : ∀ s ∈ form, IsPlain s.name.toList) :
    IsTrimmed form.text.toList := by
  by_cases hne : form = []
  · subst hne
    exact IsWord.isTrimmed (w := ['ε']) (by decide)
  · rw [toList_text hne]
    refine isTrimmed_intercalate (by simpa using hne) fun w hw => ?_
    obtain ⟨s, hs, rfl⟩ := List.mem_map.1 hw
    exact (h s hs).isWord

theorem arrowCount_text {form : Form} (h : ∀ s ∈ form, IsPlain s.name.toList) :
    arrowCount form.text.toList = 0 := by
  by_cases hne : form = []
  · subst hne
    rfl
  · rw [toList_text hne]
    refine arrowCount_intercalate fun w hw => ?_
    obtain ⟨s, hs, rfl⟩ := List.mem_map.1 hw
    exact (h s hs).noArrow

theorem mem_text {form : Form} {c : Char} (h : c ∈ form.text.toList) :
    c = 'ε' ∨ c = ' ' ∨ ∃ s ∈ form, c ∈ s.name.toList := by
  by_cases hne : form = []
  · subst hne
    exact .inl (List.mem_singleton.1 h)
  · rw [toList_text hne] at h
    rcases mem_intercalate h with h | ⟨w, hw, h⟩
    · exact .inr (.inl (List.mem_singleton.1 h))
    · obtain ⟨s, hs, rfl⟩ := List.mem_map.1 hw
      exact .inr (.inr ⟨s, hs, h⟩)

namespace IsReadable

variable {p : Production}

/-- A property of the signs between names and of the characters of all names is one of all
characters of the line. -/
theorem forall_mem_line {P : Char → Prop} (hsigns : ∀ c ∈ ['ε', ' ', '-', '>'], P c)
    (hnames : ∀ w, IsPlain w → ∀ c ∈ w, P c) (h : IsReadable p) : ∀ c ∈ p.line, P c := by
  intro c hc
  rcases List.mem_append.1 hc with hc | hc
  · rcases List.mem_append.1 hc with hc | hc
    · exact hnames _ h.head.isPlain c hc
    · have harrow : " -> ".toList ⊆ ['ε', ' ', '-', '>'] := by decide
      exact hsigns c (harrow hc)
  · rcases mem_text hc with rfl | rfl | ⟨s, hs, hc⟩
    · exact hsigns _ (by simp)
    · exact hsigns _ (by simp)
    · exact hnames _ (h.plain s hs) c hc

theorem isTrimmed_line (h : IsReadable p) : IsTrimmed p.line :=
  h.head.isWord.isTrimmed.append " -> ".toList (isTrimmed_text h.plain)

/-- The line of a production is one line. -/
theorem isLine_line (h : IsReadable p) : IsLine p.line := by
  refine ⟨h.isTrimmed_line.ne_nil, h.forall_mem_line (by simp [isLineEnd]) fun w hw c hc => ?_⟩
  refine Bool.eq_false_iff.2 fun hend => ?_
  have hblank := hw.isWord.2 c hc
  rw [isBlank_of_isLineEnd hend] at hblank
  cases hblank

theorem noSharp_line (h : IsReadable p) : '#' ∉ p.line := fun hmem =>
  h.forall_mem_line (P := (· ≠ '#')) (by simp)
    (fun w hw c hc => fun heq => hw.noSharp (heq ▸ hc)) '#' hmem rfl

/-- The line of a production has no comment and no outer blanks. -/
theorem stripComment_line (h : IsReadable p) : stripComment p.line = p.line := by
  have hsharp : p.line.takeWhile (· != '#') = p.line := by
    refine List.takeWhile_eq_self_iff.2 fun c hc => ?_
    simp only [bne_iff_ne]
    rintro rfl
    exact h.noSharp_line hc
  rw [stripComment, hsharp, h.isTrimmed_line.trim_eq]

/-- A body is read from its text. -/
theorem readBody_text (h : IsReadable p) : readBody (' ' :: p.body.text.toList) = p.body := by
  by_cases hne : p.body = []
  · rw [hne]
    decide
  · have hwords : words (' ' :: p.body.text.toList) = p.body.map fun s => s.name.toList := by
      rw [toList_text hne, ← List.nil_append (' ' :: _), words_append_blank (by decide),
        words_intercalate, words_nil, List.nil_append, List.flatMap_map]
      refine (List.flatMap_congr fun s hs => words_of_isWord (h.plain s hs).isWord).trans ?_
      rw [List.map_eq_flatMap]
    have hepsilon : isEpsilonSpelling p.body.text.toList = false := by
      obtain ⟨s, rest, hbody⟩ := List.exists_cons_of_ne_nil hne
      cases rest with
      | nil =>
        rw [toList_text hne, hbody]
        simpa using h.single s hbody
      | cons t rest =>
        -- Two names have a blank between them, and no spelling of epsilon has one.
        have hblank : ' ' ∈ p.body.text.toList := by
          rw [toList_text hne, hbody, List.map_cons, List.map_cons, List.intercalate_cons_cons]
          simp
        refine Bool.eq_false_iff.2 fun hspelling => ?_
        rw [isEpsilonSpelling, Bool.or_eq_true, List.isEmpty_iff, List.contains_iff_mem]
          at hspelling
        rcases hspelling with hnil | hmem
        · rw [hnil] at hblank
          cases hblank
        · have hnone : ∀ spelling ∈ epsilonSpellings, ' ' ∉ spelling := by decide
          exact hnone _ hmem (blank_mem_lowercase hblank)
    rw [readBody, trim_cons (by decide), (isTrimmed_text h.plain).trim_eq, hepsilon,
      if_neg Bool.false_ne_true, hwords, List.map_map]
    exact (List.map_congr_left h.kind).trans p.body.map_id

/-- **The line of a readable production is its rule.** -/
theorem isRule (h : IsReadable p) : IsRule p.line p.rule := by
  have hplain := h.head.isPlain
  have htrim : trim (p.head.toList ++ [' ']) = p.head.toList :=
    trim_concat (by decide) hplain.isWord
  have hcut : p.line = p.head.toList ++ [' '] ++ arrow ++ ' ' :: p.body.text.toList := by
    simp [Production.line, arrow]
  refine ⟨p.head.toList ++ [' '], ' ' :: p.body.text.toList, ⟨hcut, ?_⟩, ?_, ?_, ?_⟩
  · rw [hcut, arrowCount_append_arrow, arrowCount_append_cons (by decide), hplain.noArrow,
      ← List.nil_append (' ' :: p.body.text.toList), arrowCount_append_cons (by decide),
      arrowCount_text h.plain]
    rfl
  · rw [htrim]
    exact h.head
  · rw [htrim, String.ofList_toList]
    rfl
  · have hbar : '|' ∉ ' ' :: p.body.text.toList := by
      rw [List.mem_cons, not_or]
      refine ⟨by decide, fun hmem => ?_⟩
      rcases mem_text hmem with hc | hc | ⟨s, hs, hc⟩
      · exact absurd hc (by decide)
      · exact absurd hc (by decide)
      · exact (h.plain s hs).noBar hc
    rw [splitOn_of_not_mem hbar, forall₂_isBody_iff, List.map_singleton, h.readBody_text]
    rfl

end IsReadable

end Format

open Format

namespace Reader

/-! ## Rules one production at a time -/

/-- A further alternative of a head that has been entered adds its production only. -/
theorem addRule_rule {r : Reader} {p : Production} (hhead : p.head ∈ r.nonterminals)
    (hstart : r.start.isSome) : r.addRule p.rule = r.addProduction p := by
  obtain ⟨start, hr⟩ := Option.isSome_iff_exists.1 hstart
  have hnote : r.noteNonterminal p.head = r := by
    rw [noteNonterminal, note, if_pos hhead]
  rw [addRule, Production.rule, hnote, hr, Option.some_or, ← hr]
  rfl

theorem foldl_addRule_rule_of_entered {head : String} (bodies : List Form) {r : Reader}
    (hhead : head ∈ r.nonterminals) (hstart : r.start.isSome) :
    ((bodies.map fun body => (⟨head, body⟩ : Production)).map Production.rule).foldl addRule r =
      (bodies.map fun body => (⟨head, body⟩ : Production)).foldl addProduction r := by
  induction bodies generalizing r with
  | nil => rfl
  | cons body bodies ih =>
    have hentered : (([⟨head, body⟩] : List Production).foldl addProduction r).Knows
        (.nonterminal head) :=
      knows_foldl_addProduction.2 (.inl hhead)
    have hstarted : (r.addProduction ⟨head, body⟩).start = r.start :=
      foldl_addProduction_start r [⟨head, body⟩]
    rw [List.map_cons, List.map_cons, List.foldl_cons, List.foldl_cons,
      addRule_rule (p := ⟨head, body⟩) hhead hstart]
    exact ih hentered (by rw [hstarted, hstart])

/-- **Rules may be entered one production at a time.** The first alternative of a rule enters its
head, and the others find it there. -/
theorem foldl_addRule_rule {rules : List Rule} (h : ∀ rule ∈ rules, rule.bodies ≠ [])
    (r : Reader) :
    ((rules.flatMap Rule.productions).map Production.rule).foldl addRule r =
      rules.foldl addRule r := by
  induction rules generalizing r with
  | nil => rfl
  | cons rule rules ih =>
    rw [List.forall_mem_cons] at h
    obtain ⟨head, bodies⟩ := rule
    obtain ⟨first, bodies, rfl⟩ := List.exists_cons_of_ne_nil h.1
    rw [List.flatMap_cons, List.map_append, List.foldl_append, ih h.2, List.foldl_cons]
    congr 1
    -- After the first alternative, its head and a start symbol have been entered.
    have hhead : (r.addRule ⟨head, [first]⟩).Knows (.nonterminal head) :=
      knows_addRule.2 (.inr (.inl rfl))
    have hstart : (r.addRule ⟨head, [first]⟩).start.isSome := by
      have := foldl_addRule_start r [⟨head, [first]⟩]
      rw [List.foldl_cons, List.foldl_nil] at this
      rw [this]
      cases r.start <;> rfl
    exact foldl_addRule_rule_of_entered bodies hhead hstart

theorem grammar_eq_ok {r : Reader} {name : Json.Value} {g : Grammar}
    (h : r.grammar name = .ok g) :
    g.name = name ∧ g.productions = r.productions ∧ g.start.isNonterminal = true := by
  unfold grammar at h
  split at h
  · cases h
  · rename_i start hstart
    rcases hparts : Grammar.ofParts name (r.nonterminals.map .nonterminal)
      (r.terminals.map .terminal) r.productions (.nonterminal start) with v | g'
    · simp [hparts, Except.mapError] at h
    · rw [hparts] at h
      obtain rfl : g' = g := Except.ok.inj h
      obtain ⟨hname, hproductions, hstart, -⟩ := Grammar.mem_of_ofParts hparts
      exact ⟨hname, hproductions, by rw [hstart]; rfl⟩

/-- The name of a grammar counts for nothing else. -/
theorem grammar_rename {r : Reader} {name : Json.Value} {g : Grammar}
    (h : r.grammar name = .ok g) (other : Json.Value) :
    r.grammar other = .ok { g with name := other } := by
  unfold grammar Grammar.ofParts at h ⊢
  split at h
  · cases h
  · dsimp only at h ⊢
    split at h
    · rename_i hstart
      rw [dif_pos hstart]
      split at h
      · cases h
      · obtain rfl := Except.ok.inj h
        rfl
    · cases h

end Reader

namespace Grammar

theorem ofText_eq_ok_iff {text : String} {name : Json.Value} {g : Grammar} :
    ofText text name = .ok g ↔ ∃ rules, List.Forall₂ IsRule (contents (lines text.toList)) rules ∧
      (rules.foldl Reader.addRule {}).grammar name = .ok g := by
  constructor
  · intro h
    obtain ⟨rules, hrules, -⟩ := Reader.rules_of_read h
    exact ⟨rules, hrules, by rw [← h, ofText, Reader.read_of_rules hrules]⟩
  · rintro ⟨rules, hrules, h⟩
    rw [ofText, Reader.read_of_rules hrules]
    exact h

/-- The productions of a grammar that was read can be read again. -/
theorem isReadable_of_ofText {text : String} {name : Json.Value} {g : Grammar}
    (h : ofText text name = .ok g) : ∀ p ∈ g.productions, IsReadable p := by
  obtain ⟨rules, hrules, hgrammar⟩ := ofText_eq_ok_iff.1 h
  rw [(Reader.grammar_eq_ok hgrammar).2.1, Reader.foldl_addRule_productions]
  intro p hp
  obtain ⟨rule, hrule, hp⟩ := List.mem_flatMap.1 hp
  obtain ⟨content, hcontent, hisrule⟩ := exists_isRule_of_mem hrules hrule
  exact hisrule.isReadable (noSharp_of_mem_contents hcontent) hp

/-- The lines of the productions are a text of the same grammar. -/
theorem ofText_lines {text : String} {name : Json.Value} {g : Grammar}
    (h : ofText text name = .ok g) (other : Json.Value) :
    ofText (unlines (g.productions.map fun p => String.ofList p.line)) other =
      .ok { g with name := other } := by
  have hreadable := isReadable_of_ofText h
  obtain ⟨rules, hrules, hgrammar⟩ := ofText_eq_ok_iff.1 h
  refine ofText_eq_ok_iff.2 ⟨g.productions.map Production.rule, ?_, ?_⟩
  · -- Each line is a line of its own without a comment, and its rule is that of its production.
    rw [lines_unlines, contents, List.map_map, List.map_map, List.filter_eq_self.2]
    · rw [List.forall₂_map_left_iff, List.forall₂_map_right_iff]
      refine List.forall₂_same.2 fun p hp => ?_
      simpa [(hreadable p hp).stripComment_line] using (hreadable p hp).isRule
    · intro content hcontent
      obtain ⟨p, hp, rfl⟩ := List.mem_map.1 hcontent
      simpa [(hreadable p hp).stripComment_line] using (hreadable p hp).isTrimmed_line.ne_nil
    · intro line hline
      obtain ⟨p, hp, rfl⟩ := List.mem_map.1 hline
      simpa using (hreadable p hp).isLine_line
  · have hproductions : g.productions = rules.flatMap Rule.productions := by
      rw [(Reader.grammar_eq_ok hgrammar).2.1, Reader.foldl_addRule_productions, List.nil_append]
    have hbodies : ∀ rule ∈ rules, rule.bodies ≠ [] := by
      intro rule hrule hnil
      obtain ⟨content, -, hisrule⟩ := exists_isRule_of_mem hrules hrule
      exact hisrule.productions_ne_nil (by rw [Rule.productions, hnil, List.map_nil])
    have hentered := Reader.foldl_addRule_rule hbodies {}
    rw [← hproductions] at hentered
    rw [hentered]
    exact Reader.grammar_rename hgrammar other

/-- The line of an exported production: its own arrow becomes the one of the format. -/
def asLine (shown : String) : String :=
  String.ofList (replaceFirst " → ".toList " -> ".toList shown.toList)

theorem asLine_text {p : Production} (h : IsReadable p) : asLine p.text = String.ofList p.line := by
  have hblank : ' ' ∉ p.head.toList := fun hmem =>
    absurd (h.head.isWord.2 ' ' hmem) (by decide)
  rw [asLine, Production.text, String.toList_append, String.toList_append]
  exact congrArg String.ofList (replaceFirst_append hblank _ _ _)

theorem ofText_asLine {text : String} {name : Json.Value} {g : Grammar}
    (h : ofText text name = .ok g) (other : Json.Value) :
    ofText (unlines ((g.productions.map Production.text).map asLine)) other =
      .ok { g with name := other } := by
  have hlines : g.productions.map (asLine ∘ Production.text) =
      g.productions.map fun p => String.ofList p.line :=
    List.map_congr_left fun p hp => asLine_text (isReadable_of_ofText h p hp)
  rw [List.map_map, hlines]
  exact ofText_lines h other

/-- **A grammar of a text is read again from its exported productions.** The exported texts, one a
line and each with the arrow of the format in place of its own, are a text of the same grammar: the
symbols, the start symbol and the productions are the same ones in the same order. Two grammars of
texts that are exported alike are therefore equal. -/
theorem ofText_exported {text : String} {name : Json.Value} {g : Grammar}
    (h : ofText text name = .ok g) :
    (∃ shown : List String, g.toJson.field? "productions" = some (.list (shown.map .text)) ∧
      ∀ other, ofText (unlines (shown.map asLine)) other = .ok { g with name := other }) ∧
    ∀ text' name' g', ofText text' name' = .ok g' → g'.toJson = g.toJson → g' = g := by
  refine ⟨⟨g.productions.map Production.text, ?_, ofText_asLine h⟩, fun text' name' g' h' heq => ?_⟩
  · rw [List.map_map]
    rfl
  · have hname : g'.name = g.name :=
      Option.some.inj (congrArg (Json.Value.field? "name") heq)
    have hshown : g'.productions.map Production.text = g.productions.map Production.text := by
      have hlist : Json.Value.list (g'.productions.map (.text ·.text)) =
          .list (g.productions.map (.text ·.text)) :=
        Option.some.inj (congrArg (Json.Value.field? "productions") heq)
      have htext : Function.Injective Json.Value.text := fun _ _ => Json.Value.text.inj
      rw [← (List.map_injective_iff.2 htext).eq_iff, List.map_map, List.map_map]
      exact Json.Value.list.inj hlist
    -- Both are the grammar of one text, up to their names, which are equal too.
    have hsame := ofText_asLine h' g'.name
    rw [hshown, ofText_asLine h g'.name, Except.ok.injEq] at hsame
    have hrenamed : { g with name := g'.name } = g := by rw [hname]
    exact hsame.symm.trans hrenamed

/-- A text with a comment, an empty line, alternatives and a spelled-out epsilon. -/
def listText : String := "List -> ( Items ) | lambda # a list\n\nItems->List Items|x"

/-- The grammar of `listText` is read again from its exported productions. -/
theorem ofText_exported_listText :
    ∃ g, ofText listText (.text "lists") = .ok g ∧
      (∃ shown : List String, g.toJson.field? "productions" = some (.list (shown.map .text)) ∧
        ∀ other, ofText (unlines (shown.map asLine)) other = .ok { g with name := other }) ∧
      ∀ text' name' g', ofText text' name' = .ok g' → g'.toJson = g.toJson → g' = g := by
  have hok : (ofText listText (.text "lists")).isOk = true := by decide +kernel
  rcases hread : ofText listText (.text "lists") with e | g
  · rw [hread] at hok
    cases hok
  · exact ⟨g, rfl, ofText_exported hread⟩

end Grammar

end GrammarSuite
