import GrammarSuite.Proofs.Json.Numbers
import GrammarSuite.Proofs.Metrics.Entries
import GrammarSuite.Proofs.Report.Ranked
import GrammarSuite.Proofs.Text.Feeds

/-!
# Reading sections of the text report

A section of the text report is found by its title, and its lines are those behind the head, up to
the next rule. The last line with the wording of a title is the title itself: what is written behind
it starts with blanks, or is a title of another wording. So the sections about the operators and
about the cases are read back, whatever stands in front of them, if the contents and the
descriptions of the cases are on one line.

## Main definitions

* `Report.sectionOf`: the lines of a section
* `Report.IsItem`: a line inside a section
* `Report.IsBehind`: lines behind a section

## Main results

* `Labelled.onOneLine_id`: the identifier of a labelled case
* `Report.isBehind_heading`: a section behind another one
* `Report.sectionOf_unlines`: a section is read back
* `Report.isItem_operatorLine`, `Report.isItem_of_mem_caseLines`: the lines of operators and of cases
-/

namespace GrammarSuite

open Json (Value)

/-! ## Texts on one line -/

namespace Text

variable {s : String}

theorem onOneLine_of_isDigit (h : ∀ c ∈ s.toList, c.isDigit = true) : OnOneLine s := fun hfeed =>
  absurd (h _ hfeed) (by decide)

@[simp] theorem onOneLine_padLeft {width : Nat} : OnOneLine (padLeft width s) ↔ OnOneLine s := by
  simp [OnOneLine, padLeft]

@[simp] theorem onOneLine_padRight {width : Nat} : OnOneLine (padRight width s) ↔ OnOneLine s := by
  simp [OnOneLine, padRight]

@[simp] theorem onOneLine_toString (n : Nat) : OnOneLine (toString n) :=
  onOneLine_of_isDigit fun _ hc => Json.areDigits_digits n _ (by simpa [Decimal.digits] using hc)

/-- Where a point is set, there are digits and the point. -/
theorem onOneLine_withPoint (n units : Nat) : OnOneLine (Decimal.withPoint n units) := by
  have hdigits : '\n' ∉ List.replicate (n + 1 - (Decimal.digits units).length) '0' ++
      Decimal.digits units := fun hfeed =>
    absurd ((Json.areDigits_zeros _).append (Json.areDigits_digits units) _ hfeed) (by decide)
  unfold Decimal.withPoint
  dsimp only
  generalize List.replicate (n + 1 - (Decimal.digits units).length) '0' ++ Decimal.digits units =
    ds at hdigits ⊢
  have htake : '\n' ∉ ds.take (ds.length - n) := fun h => hdigits (List.mem_of_mem_take h)
  have hdrop : '\n' ∉ ds.drop (ds.length - n) := fun h => hdigits (List.mem_of_mem_drop h)
  split <;> simp [OnOneLine, htake, hdrop]

@[simp] theorem onOneLine_fixed (n : Nat) (x : Float) : OnOneLine (Decimal.fixed n x) := by
  have hsign : OnOneLine (if Decimal.isNegative x then "-" else "") := by split <;> decide
  unfold Decimal.fixed
  dsimp only
  split
  · exact onOneLine_append.2 ⟨hsign, onOneLine_withPoint _ _⟩
  · exact onOneLine_append.2 ⟨hsign, by decide⟩
  · decide

end Text

/-! ## Identifiers -/

/-- The number in an identifier is on one line. -/
theorem Session.onOneLine_of_counterText {counter : Value} {number : String}
    (h : counterText counter = .ok number) : Text.OnOneLine number := by
  cases counter with
  | int n =>
    rw [counterText, Value.written] at h
    split at h
    · obtain rfl := Except.ok.inj h
      have hpadded : ∀ width k, Text.OnOneLine (Instant.padded width k) := fun _ _ =>
        Text.onOneLine_of_isDigit fun _ => Instant.isDigit_of_mem_padded
      rw [numberText]
      split
      · exact hpadded _ _
      · exact Text.onOneLine_append.2 ⟨by decide, hpadded _ _⟩
    · cases h
  | bool b =>
    obtain rfl := Except.ok.inj h
    cases b <;> decide
  | _ => cases h

/-- The identifier of a labelled case is on one line. -/
theorem Labelled.onOneLine_id (l : Labelled) : Text.OnOneLine l.case.id.display := by
  obtain ⟨identifier, now, counter, h⟩ := l.exists_labelled
  rw [Session.labelled] at h
  obtain ⟨number, hnumber, h⟩ := Action.bind_eq_ok_iff.1 h
  obtain ⟨created, -, h⟩ := Action.bind_eq_ok_iff.1 h
  obtain ⟨-, -, h⟩ := Action.bind_eq_ok_iff.1 h
  obtain ⟨text, -, h⟩ := Action.bind_eq_ok_iff.1 h
  obtain ⟨spelling, -, h⟩ := Action.bind_eq_ok_iff.1 h
  rw [← Except.ok.inj h, TestCase.annotateAll_eq]
  have hname : ∀ category : Category, Text.OnOneLine (category.name ++ "_") := by
    intro category
    cases category <;> decide
  exact Text.onOneLine_append.2 ⟨hname _, Session.onOneLine_of_counterText hnumber⟩

namespace Report

variable {title l : String} {ls items more : List String}

/-! ## Sections -/

/-- The titles of the sections that are read back. -/
def titles : List String := ["OPERATORS", "TEST CASES"]

/-- The lines of the last section of a title: those behind its head, up to the next rule. -/
def sectionOf (title text : String) : List String :=
  ((Text.behindLast title (Text.feedLines text)).drop 2).takeWhile (· ≠ rule 80)

/-- A line inside a section: it is a single one, and neither a rule nor a title. -/
structure IsItem (l : String) : Prop where
  onOneLine : Text.OnOneLine l
  notRule : l ≠ rule 80
  notTitle : l ∉ titles

/-- Lines behind the section of a title: they are single ones, none of them is the title, and a rule
comes first. -/
structure IsBehind (title : String) (ls : List String) : Prop where
  lines : ∀ l ∈ ls, Text.OnOneLine l ∧ l ≠ title
  start : ∀ l ∈ ls.head?, l = rule 80

/-- The lines at the end of the report. -/
def ending : List String := [rule 80, "END OF REPORT", rule 80]

theorem onOneLine_rule (width : Nat) : Text.OnOneLine (rule width) := by
  simp [Text.OnOneLine, rule]

theorem rule_notMem_titles : rule 80 ∉ titles := by decide

theorem IsBehind.append (h : IsBehind title ls) (hmore : IsBehind title more) :
    IsBehind title (ls ++ more) := by
  refine ⟨List.forall_mem_append.2 ⟨h.lines, hmore.lines⟩, ?_⟩
  cases ls with
  | nil => exact hmore.start
  | cons l ls => exact h.start

theorem isItem_empty : IsItem "" := ⟨by decide, by decide, by decide⟩

/-- What is indented is neither a rule nor a title. -/
theorem isItem_indented {s : String} (h : Text.OnOneLine s) : IsItem ("  " ++ s) := by
  have hfirst : ∀ t : String, t.toList.head? ≠ some ' ' → "  " ++ s ≠ t := by
    rintro t ht rfl
    exact ht (by simp)
  refine ⟨Text.onOneLine_append.2 ⟨by decide, h⟩, hfirst _ (by decide), fun hmem => ?_⟩
  have htitles : ∀ t ∈ titles, t.toList.head? ≠ some ' ' := by decide
  exact hfirst _ (htitles _ hmem) rfl

/-- A rule, an empty line and the lines inside sections may stand behind a title. -/
theorem isBelow_of_mem (htitle : title ∈ titles) (hitems : ∀ l ∈ items, IsItem l) :
    ∀ l ∈ rule 80 :: "" :: items, Text.OnOneLine l ∧ l ≠ title := by
  have hne : ∀ l ∉ titles, l ≠ title := by
    rintro l hl rfl
    exact hl htitle
  simp only [List.forall_mem_cons]
  exact ⟨⟨onOneLine_rule 80, hne _ rule_notMem_titles⟩, ⟨by decide, hne _ (by decide)⟩,
    fun l hl => ⟨(hitems l hl).onOneLine, hne _ (hitems l hl).notTitle⟩⟩

/-- A section with another title may stand behind a section. -/
theorem isBehind_heading (l : String) (htitle : title ∈ titles) (hl : Text.OnOneLine l)
    (hne : l ≠ title) (hitems : ∀ m ∈ items, IsItem m) : IsBehind title (heading l ++ items) := by
  have hbelow := isBelow_of_mem htitle hitems
  refine ⟨?_, fun m hm => (Option.some.inj hm).symm⟩
  rw [heading, List.cons_append, List.cons_append]
  exact List.forall_mem_cons.2 ⟨hbelow _ List.mem_cons_self,
    List.forall_mem_cons.2 ⟨⟨hl, hne⟩, hbelow⟩⟩

/-- The end of the report may stand behind each section. -/
theorem isBehind_ending (htitle : title ∈ titles) : IsBehind title ending := by
  have hlines : ∀ t ∈ titles, ∀ l ∈ ending, Text.OnOneLine l ∧ l ≠ t := by decide
  exact ⟨hlines title htitle, fun l hl => (Option.some.inj hl).symm⟩

/-- **A section is read back**, whatever stands in front of it. -/
theorem sectionOf_unlines (front : List String) (htitle : title ∈ titles)
    (hitems : ∀ l ∈ items, IsItem l) (hmore : IsBehind title more) :
    sectionOf title (Text.unlines (front ++ heading title ++ items ++ more)) = items := by
  have hline : ∀ t ∈ titles, Text.OnOneLine t := by decide
  have hbelow : ∀ l ∈ rule 80 :: "" :: (items ++ more), Text.OnOneLine l ∧ l ≠ title := by
    rw [← List.cons_append, ← List.cons_append]
    exact List.forall_mem_append.2 ⟨isBelow_of_mem htitle hitems, hmore.lines⟩
  have hsplit : front ++ heading title ++ items ++ more =
      (front ++ [rule 80]) ++ title :: rule 80 :: "" :: (items ++ more) := by
    simp [heading]
  have hitemsOnly : (items ++ more).takeWhile (· ≠ rule 80) = items := by
    rw [List.takeWhile_append_of_pos fun l hl => by simpa using (hitems l hl).notRule]
    match more, hmore.start with
    | [], _ => simp
    | l :: rest, hstart => simp [hstart l rfl]
  rw [sectionOf, hsplit, Text.behindLast_feedLines_unlines _ (hline title htitle)
    (fun l hl => (hbelow l hl).1) fun hmem => (hbelow title hmem).2 rfl]
  exact hitemsOnly

/-! ## Lines of operators, of kinds and of cases -/

theorem isItem_operatorLine {e : String × Nat} (total : Nat) (h : Text.OnOneLine e.1) :
    IsItem (operatorLine total e) := by
  simp only [operatorLine, String.append_assoc]
  refine isItem_indented ?_
  simp only [Text.onOneLine_append, Text.onOneLine_padLeft, Text.onOneLine_toString,
    Text.onOneLine_fixed, h, true_and]
  decide

theorem isItem_kindLine {e : String × Nat} (h : Text.OnOneLine e.1) : IsItem (kindLine e) := by
  simp only [kindLine, String.append_assoc]
  refine isItem_indented ?_
  simp only [Text.onOneLine_append, Text.onOneLine_padRight, Text.onOneLine_padLeft,
    Text.onOneLine_toString, h, true_and]
  decide

theorem isItem_total (total : Nat) : IsItem ("  Total: " ++ toString total) := by
  have hindent : "  Total: " = "  " ++ "Total: " := by decide
  rw [hindent, String.append_assoc]
  exact isItem_indented (Text.onOneLine_append.2 ⟨by decide, Text.onOneLine_toString total⟩)

/-- The line over the cases of a category. -/
def categoryLine (category : Category) (number : Nat) : String :=
  category.label ++ " (" ++ toString number ++ "):"

/-- The lines of a case. -/
def caseLines (c : TestCase) : List String :=
  ["  " ++ c.id.display ++ ": " ++ c.content.display, "      " ++ c.description.display]

theorem isItem_categoryLine (category : Category) (number : Nat) :
    IsItem (categoryLine category number) := by
  have hlabel : Text.OnOneLine category.label := by cases category <;> decide
  have hfirst : ∀ t : String, t.toList.head? ≠ category.label.toList.head? →
      categoryLine category number ≠ t := by
    rintro t ht rfl
    refine ht ?_
    cases category <;> simp [categoryLine, Category.label]
  refine ⟨?_, hfirst _ ?_, fun hmem => ?_⟩
  · simp only [categoryLine, Text.onOneLine_append, hlabel, Text.onOneLine_toString, true_and]
    decide
  · cases category <;> decide
  · have htitles : ∀ t ∈ titles, t.toList.head? ≠ category.label.toList.head? := by
      cases category <;> decide
    exact hfirst _ (htitles _ hmem) rfl

theorem isItem_of_mem_caseLines {c : TestCase} (hid : Text.OnOneLine c.id.display)
    (hcontent : Text.OnOneLine c.content.display) (hdescription : Text.OnOneLine c.description.display)
    (h : l ∈ caseLines c) : IsItem l := by
  simp only [caseLines, List.mem_cons, List.not_mem_nil, or_false] at h
  rcases h with rfl | rfl
  · rw [String.append_assoc, String.append_assoc]
    refine isItem_indented ?_
    simp only [Text.onOneLine_append, hid, hcontent, true_and, and_true]
    decide
  · have hindent : "      " = "  " ++ "    " := by decide
    rw [hindent, String.append_assoc]
    exact isItem_indented (Text.onOneLine_append.2 ⟨by decide, hdescription⟩)

end Report

end GrammarSuite
