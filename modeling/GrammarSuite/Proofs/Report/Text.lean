import GrammarSuite.Proofs.Metrics.Combined
import GrammarSuite.Proofs.Report.Sections
import GrammarSuite.Proofs.Table

/-!
# The text report as an account

The text report on the figures of labelled cases is an account of these cases. Its last section has
every case once, under its own category, and the number over the cases of a category is the one that
the figures have. Its section about the operators has those that occur, from the most frequent one
to the least frequent one, and their numbers add up to the printed total. If there is no report,
there are so many cases or tokens that a number is too large to be written or for a double.

## Main definitions

* `Report.IsVast`: a suite with so many cases or tokens
* `Report.CasesAreListed`: cases under their categories
* `Report.OperatorsAreListed`: operators with their numbers

## Main results

* `Report.casesAreListed_groupsOf`: every case is in one group
* `Report.operatorsAreListed_of_arranges`: the positive entries of ranked counts
* `Report.textLines_isPiece`: where the two sections stand
* `Report.text_accounts_for_cases`: both sections are read back
-/

namespace GrammarSuite

open Json (Misuse Number Value)

namespace Report

variable {E : Prop} {ls : List Labelled} {cases : List TestCase} {m : Metrics} {r : Report}
  {v w : Value} {table : List (String × Nat)}

/-- There are so many cases, or so many tokens in them, that the number is near the greatest double
or beyond it. -/
def IsVast (ls : List Labelled) : Prop :=
  Decimal.finiteBound ≤ ls.length ∨ Decimal.finiteBound ≤ (ls.map (·.tokens.length)).sum

/-! ## Cases under their categories -/

/-- The number of the cases of a category among figures. -/
def numberOf (m : Metrics) : Category → Nat
  | .valid => m.validCases
  | .invalid => m.invalidCases
  | .extreme => m.extremeCases

/-- Groups of cases are those of the categories that occur, in order, each with all of its cases in
order, and their sizes are the numbers of the figures. Every case is in one group. -/
structure CasesAreListed (cases : List TestCase) (m : Metrics)
    (groups : List (Category × List TestCase)) : Prop where
  categories : groups.map Prod.fst =
    [.valid, .invalid, .extreme].filter fun category => cases.any (·.category = category)
  own : ∀ g ∈ groups, g.2 = cases.filter (·.category = g.1)
  numbers : ∀ g ∈ groups, g.2.length = numberOf m g.1
  every : (groups.flatMap Prod.snd).Perm cases

/-- The lines of a group: its category with its size, and its cases. -/
def groupLines (g : Category × List TestCase) : List String :=
  categoryLine g.1 g.2.length :: g.2.flatMap caseLines ++ [""]

/-- The cases of the categories that occur. -/
def groupsOf (cases : List TestCase) : List (Category × List TestCase) :=
  (Category.all.map fun category => (category, cases.filter (·.category = category))).filter
    fun g => !g.2.isEmpty

theorem flatMap_filter {α β : Type} (p : α → Bool) (f : α → List β) (xs : List α) :
    (xs.filter p).flatMap f = xs.flatMap fun a => if p a then f a else [] := by
  induction xs with
  | nil => rfl
  | cons a xs ih =>
    rw [List.flatMap_cons, ← ih, List.filter_cons]
    split <;> simp

theorem flatMap_categoryLines (cases : List TestCase) :
    Category.all.flatMap (categoryLines cases) = (groupsOf cases).flatMap groupLines := by
  rw [groupsOf, flatMap_filter, List.flatMap_map]
  refine List.flatMap_congr fun category _ => ?_
  rw [categoryLines]
  dsimp only
  cases hempty : (cases.filter (·.category = category)).isEmpty <;> rfl

/-- The cases of all categories are all cases. -/
theorem perm_flatMap_filter (cases : List TestCase) :
    (Category.all.flatMap fun category => cases.filter (·.category = category)).Perm cases := by
  induction cases with
  | nil => rfl
  | cons c rest ih =>
    have hfirst : (Category.all.flatMap fun category =>
        if c.category = category then [c] else []) = [c] := by
      cases h : c.category <;> rfl
    have hsplit : ∀ category, (c :: rest).filter (·.category = category) =
        (if c.category = category then [c] else []) ++ rest.filter (·.category = category) := by
      intro category
      rw [List.filter_cons]
      by_cases h : c.category = category <;> simp [h]
    simp only [hsplit]
    refine (List.flatMap_append_perm _ _ _).symm.trans ?_
    rw [hfirst]
    exact ih.cons c

/-- **Every case is in the group of its category.** -/
theorem casesAreListed_groupsOf (h : Metrics.Counts cases m) :
    CasesAreListed cases m (groupsOf cases) := by
  have hgroup : ∀ g ∈ groupsOf cases, g.2 = cases.filter (·.category = g.1) := by
    intro g hg
    obtain ⟨category, -, rfl⟩ := List.mem_map.1 (List.mem_of_mem_filter hg)
    rfl
  refine ⟨?_, hgroup, fun g hg => ?_, ?_⟩
  · rw [groupsOf, List.filter_map, List.map_map]
    refine (List.map_id'' (fun _ => rfl) _).trans (List.filter_congr fun category _ => ?_)
    rw [Bool.eq_iff_iff]
    simp
  · rw [hgroup g hg, ← List.countP_eq_length_filter]
    obtain ⟨-, hvalid, hinvalid, hextreme⟩ := h
    cases g.1 <;> simp [numberOf, hvalid, hinvalid, hextreme]
  · rw [groupsOf, flatMap_filter, List.flatMap_map]
    refine (List.Perm.of_eq ?_).trans (perm_flatMap_filter cases)
    refine List.flatMap_congr fun category _ => ?_
    cases hempty : (cases.filter (·.category = category)) <;> simp

/-! ## Operators with their numbers -/

/-- Operators with their numbers are those of the figures that occur, each once, from the most
frequent one to the least frequent one. Equally frequent ones are in the order of a report, and the
numbers add up to the total of the figures. -/
structure OperatorsAreListed (m : Metrics) (ops : List (String × Nat)) : Prop where
  listed : ∀ op n, (op, n) ∈ ops ↔ m.operators.get? op = some (.whole n) ∧ 0 < n
  once : (ops.map Prod.fst).Nodup
  ranked : ops.Pairwise fun a b => b.2 < a.2 ∨
    (b.2 = a.2 ∧ ["+", "*", "-", "/"].idxOf a.1 < ["+", "*", "-", "/"].idxOf b.1)
  total : m.totalOperators = .whole ((ops.map Prod.snd).sum : Nat)

/-- The lines of operators, and of their total. -/
def operatorSection (ops : List (String × Nat)) : List String :=
  ops.map (operatorLine (ops.map Prod.snd).sum) ++
    ["  Total: " ++ toString (ops.map Prod.snd).sum, ""]

/-- What is zero adds nothing. -/
theorem sum_filter_pos (table : List (String × Nat)) :
    ((table.filter (0 < ·.2)).map Prod.snd).sum = (table.map Prod.snd).sum := by
  induction table with
  | nil => rfl
  | cons e rest ih =>
    rw [List.filter_cons]
    split
    · rw [List.map_cons, List.map_cons, List.sum_cons, List.sum_cons, ih]
    · rename_i hzero
      rw [ih, List.map_cons, List.sum_cons]
      simp only [decide_eq_true_eq] at hzero
      omega

/-- **The operators that occur are the positive entries of the ranked counts.** -/
theorem operatorsAreListed_of_arranges {f : String → Nat} {entries : List (String × Nat)}
    (hoperators : m.operators = Token.operators.map fun op => (op, .whole (f op)))
    (htotal : m.totalOperators = .whole ((Token.operators.map f).sum : Nat))
    (hperm : entries.Perm (Token.operators.map fun op => (op, f op)))
    (harranges : Sorting.Arranges (fun e => -(e.2 : Int))
      (Token.operators.map fun op => (op, f op)) entries) :
    OperatorsAreListed m (entries.filter (0 < ·.2)) := by
  have hnames : (entries.map Prod.fst).Perm Token.operators := by
    simpa [Function.comp_def] using hperm.map Prod.fst
  have hnodup : Token.operators.Nodup := by decide
  constructor
  case listed =>
    have hkeys : (Table.keys m.operators).Nodup := by
      simpa [hoperators, Table.keys, Function.comp_def] using hnodup
    intro op n
    rw [Table.get?_eq_some_iff hkeys, hoperators, List.mem_filter, hperm.mem_iff]
    simp
  case once =>
    exact (hnames.nodup_iff.2 hnodup).sublist (List.filter_sublist.map _)
  case ranked =>
    have hindex : (Token.operators.map fun op => (op, f op)).Pairwise fun a b =>
        ["+", "*", "-", "/"].idxOf a.1 < ["+", "*", "-", "/"].idxOf b.1 := by
      have horder : Token.operators.Pairwise fun a b =>
          ["+", "*", "-", "/"].idxOf a < ["+", "*", "-", "/"].idxOf b := by decide
      exact List.pairwise_map.2 horder
    have hties := harranges.pairwise_of_key_eq hindex
    refine ((harranges.ordered.and hties).imp fun {a b} hab => ?_).filter _
    rcases Int.lt_or_eq_of_le hab.1 with hlt | heq
    · exact .inl (by omega)
    · exact .inr ⟨by omega, hab.2 heq⟩
  case total =>
    rw [htotal, sum_filter_pos, (hperm.map Prod.snd).sum_eq, List.map_map]
    rfl

/-! ## Pieces of the report -/

theorem figure_isPiece {x : Float} (hv : v = .float x) : IsPiece E (fun _ => True) (figure v) := by
  subst hv
  exact .made trivial

theorem percent_isPiece {x : Float} (hv : v = .float x) : IsPiece E (fun _ => True) (percent v) := by
  subst hv
  exact .made trivial

/-- The row of a category is made unless its number is large. -/
theorem categoryRow_isPiece {label : String} {n : Nat} {x : Float} (hv : v = .int n)
    (hw : w = .float x) (hlarge : Decimal.finiteBound ≤ n → E) :
    IsPiece E (fun _ => True) (categoryRow label v w) := by
  subst hv
  refine ((count_isPiece 5 n).mono hlarge fun _ _ => trivial).bind fun _ _ => ?_
  exact (percent_isPiece hw).bind fun _ _ => .made trivial

theorem depthLines_isPiece {f : Figures} {n : Int} {x : Float} (hdepth : f.value "max_depth" = .int n)
    (haverage : f.value "avg_depth" = .float x) : IsPiece E (fun _ => True) (depthLines f) := by
  have hpositive : (f.value "max_depth").positive = .ok (decide (0 < n)) := by
    rw [hdepth]
    rfl
  rw [depthLines, hpositive]
  show IsPiece _ _ (if _ then _ else _)
  split
  · exact (figure_isPiece haverage).bind fun _ _ => .made trivial
  · exact .made trivial

/-- The section about the kinds of a category, if there is one, may stand behind the operators. -/
theorem kindSection_isPiece {κ : Type} {nameOf : κ → String} {keys : List κ}
    {p : κ → Labelled → Bool} {title : String} (htitle : Text.OnOneLine title)
    (hne : title ≠ "OPERATORS") (hshort : keys.length < 64)
    (hnames : ∀ k ∈ keys, Text.OnOneLine (nameOf k))
    (hw : w = .object (countFields (keys.map fun k => (nameOf k, ls.countP (p k))))) :
    IsPiece (IsVast ls) (IsBehind "OPERATORS") (kindSection title v w) := by
  subst hw
  rw [kindSection]
  split
  · obtain ⟨entries, hranked, hperm, -⟩ := @ranked_countFields
      (keys.map fun k => (nameOf k, ls.countP (p k))) (by rwa [List.length_map])
    have hentry : ∀ e ∈ entries, Text.OnOneLine e.1 ∧ e.2 ≤ ls.length := by
      intro e he
      obtain ⟨k, hk, rfl⟩ := List.mem_map.1 (hperm.mem_iff.1 he)
      exact ⟨hnames k hk, List.countP_le_length⟩
    show IsPiece _ _ (ranked (countFields _) >>= _)
    rw [hranked]
    refine (kindLines_isPiece fun e he hlarge => .inl (hlarge.trans (hentry e he).2)).bind ?_
    rintro _ rfl
    refine .made ?_
    rw [List.append_assoc]
    refine isBehind_heading title (by decide) htitle hne (List.forall_mem_append.2 ⟨?_, ?_⟩)
    · intro l hl
      obtain ⟨e, he, rfl⟩ := List.mem_map.1 hl
      exact isItem_kindLine (hentry e (List.mem_of_mem_filter he)).1
    · simpa using isItem_empty
  · exact .made ⟨by simp, by simp⟩

/-! ## Where the sections stand -/

/-- A large total comes from many tokens. -/
theorem isVast_of_totalOperators {elapsed : Float} {total : Nat}
    (hm : Metrics.ofCases (ls.map Labelled.case) elapsed = .ok m)
    (htotal : m.totalOperators = .whole total) (hlarge : Decimal.finiteBound ≤ total) :
    IsVast ls := by
  rw [Metrics.totalOperators_of_ofCases hm, Metrics.sum_operators] at htotal
  have hsum : (ls.map fun l => (Token.operators.map l.tokens.count).sum).sum ≤
      (ls.map (·.tokens.length)).sum := by
    refine List.sum_le_sum fun l _ => ?_
    rw [Token.sum_map_count (by decide)]
    exact List.countP_le_length
  have htotal := Int.ofNat.inj (Number.whole.inj htotal)
  exact .inr (by omega)

/-- The operators are ranked, and those that occur are listed. -/
theorem exists_ranked_operators {elapsed : Float}
    (hm : Metrics.ofCases (ls.map Labelled.case) elapsed = .ok m) :
    ∃ counts entries, m.figures.value "operators_by_type" = .object (countFields counts) ∧
      ranked (countFields counts) = .ok (countFields entries) ∧
      OperatorsAreListed m (entries.filter (0 < ·.2)) ∧ ∀ e ∈ entries, Text.OnOneLine e.1 := by
  have hoperators := (Metrics.byLabels_of_ofCases hm).operators
  generalize hf : (fun op => (ls.map fun l => l.tokens.count op).sum) = f
  have hcounts : m.operators = Token.operators.map fun op => (op, .whole (f op)) := by
    rw [hoperators, ← hf]
  obtain ⟨entries, hranked, hperm, harranges⟩ :=
    @ranked_countFields (Token.operators.map fun op => (op, f op)) (by simp [Token.operators])
  refine ⟨_, entries, ?_, hranked, operatorsAreListed_of_arranges hcounts ?_ hperm harranges, ?_⟩
  · show Value.object (m.operators.map _) = _
    rw [hcounts, countFields, List.map_map, List.map_map]
    rfl
  · rw [Metrics.totalOperators_of_ofCases hm, ← hf]
  · intro e he
    obtain ⟨op, hop, rfl⟩ := List.mem_map.1 (hperm.mem_iff.1 he)
    have hline : ∀ op ∈ Token.operators, Text.OnOneLine op := by decide
    exact hline op hop

theorem exists_maxDepth (h : Metrics.ByLabels ls m) :
    ∃ n, m.figures.value "max_depth" = .int n := by
  have hgreatest := h.maxDepth
  by_cases hdepths : Metrics.depths ls = []
  · rw [hdepths] at hgreatest
    exact ⟨0, (Except.ok.inj hgreatest).symm⟩
  · obtain ⟨n, hn, -⟩ := Metrics.greatest_int hdepths
    rw [hn] at hgreatest
    exact ⟨n, (Except.ok.inj hgreatest).symm⟩

/-- Lines that end with a section about the operators that occur, lines that may stand behind it, and
the section about the cases. -/
def HasSections (r : Report) (m : Metrics) (lines : List String) : Prop :=
  ∃ front ops between, OperatorsAreListed m ops ∧ (∀ e ∈ ops, Text.OnOneLine e.1) ∧
    IsBehind "OPERATORS" between ∧
    lines = front ++ heading "OPERATORS" ++ operatorSection ops ++ between ++
      heading "TEST CASES" ++ (groupsOf r.cases).flatMap groupLines ++ ending

/-- **The two sections stand in a report**, unless a number is too large. -/
theorem textLines_isPiece {elapsed : Float} {now : Instant}
    (hm : Metrics.ofCases (ls.map Labelled.case) elapsed = .ok m) (hfigures : r.figures = m.figures)
    (hnow : r.now = .ok now) : IsPiece (IsVast ls) (HasSections r m) r.textLines := by
  obtain ⟨-, hvalid, hinvalid, hextreme⟩ := Metrics.counts_of_ofCases hm
  have hlabels := Metrics.byLabels_of_ofCases hm
  obtain ⟨depth, hdepth⟩ := exists_maxDepth hlabels
  obtain ⟨counts, entries, hfields, hranked, hlisted, hlines⟩ := exists_ranked_operators hm
  have hnumber : ∀ category n, n = (ls.map Labelled.case).countP (·.category = category) →
      Decimal.finiteBound ≤ n → IsVast ls := by
    rintro category _ rfl hlarge
    have hcount := @List.countP_le_length _ (fun c : TestCase => decide (c.category = category))
      (ls.map Labelled.case)
    rw [List.length_map] at hcount
    exact .inl (hlarge.trans hcount)
  have htotal : m.figures.value "total_operators" =
      .int (((entries.filter (0 < ·.2)).map Prod.snd).sum : Nat) :=
    congrArg Number.toValue hlisted.total
  have hle : ∀ e ∈ entries, e.2 ≤ ((entries.filter (0 < ·.2)).map Prod.snd).sum := by
    intro e he
    rw [sum_filter_pos]
    exact List.le_sum_of_mem (List.mem_map_of_mem he)
  have hmany := isVast_of_totalOperators hm hlisted.total
  rw [textLines, hnow, hfigures]
  -- In front of the operators, only the number of a category can be too large.
  refine (IsPiece.made (P := fun _ => True) trivial).bind fun now _ => ?_
  refine (figure_isPiece rfl).bind fun elapsed _ => ?_
  refine (figure_isPiece rfl).bind fun perCase _ => ?_
  refine (categoryRow_isPiece rfl rfl (hnumber _ _ hvalid)).bind fun valid _ => ?_
  refine (categoryRow_isPiece rfl rfl (hnumber _ _ hinvalid)).bind fun invalid _ => ?_
  refine (categoryRow_isPiece rfl rfl (hnumber _ _ hextreme)).bind fun extreme _ => ?_
  refine (figure_isPiece rfl).bind fun averageLength _ => ?_
  refine (depthLines_isPiece hdepth rfl).bind fun depths _ => ?_
  -- The shares are those of a total that no number exceeds.
  rw [hfields, htotal]
  show IsPiece _ _ (ranked (countFields counts) >>= _)
  rw [hranked]
  refine ((operatorLines_isPiece hle).mono hmany fun _ => id).bind ?_
  rintro _ rfl
  refine ((shown_isPiece _).mono hmany fun _ => id).bind ?_
  rintro _ rfl
  refine (kindSection_isPiece (by decide) (by decide) (by decide)
    (fun kind _ => by cases kind <;> decide)
    (congrArg (Value.object ∘ countFields) hlabels.mutations)).bind fun mutations hmutations => ?_
  refine (kindSection_isPiece (by decide) (by decide) (by decide)
    (fun kind _ => by cases kind <;> decide)
    (congrArg (Value.object ∘ countFields) hlabels.extremes)).bind fun extremes hextremes => ?_
  have hassociated : ∀ front operators total cases : List String,
      front ++ heading "OPERATORS" ++ operators ++ total ++ mutations ++ extremes ++
          heading "TEST CASES" ++ cases ++ ending =
        front ++ heading "OPERATORS" ++ (operators ++ total) ++ (mutations ++ extremes) ++
          heading "TEST CASES" ++ cases ++ ending := by
    intro front operators total cases
    simp only [List.append_assoc]
  rw [flatMap_categoryLines]
  exact .made ⟨_, _, _, hlisted, fun e he => hlines e (List.mem_of_mem_filter he),
    hmutations.append hextremes, hassociated _ _ _ _⟩

/-! ## Both sections read back -/

/-- The lines of groups of cases are lines inside a section. -/
theorem isItem_of_mem_groupLines {groups : List (Category × List TestCase)}
    (h : CasesAreListed cases m groups) (hids : ∀ c ∈ cases, Text.OnOneLine c.id.display)
    (hlines : ∀ c ∈ cases, Text.OnOneLine c.content.display ∧ Text.OnOneLine c.description.display) :
    ∀ l ∈ groups.flatMap groupLines, IsItem l := by
  intro l hl
  obtain ⟨g, hg, hl⟩ := List.mem_flatMap.1 hl
  simp only [groupLines, List.cons_append, List.mem_cons, List.mem_append, List.mem_flatMap,
    List.not_mem_nil, or_false] at hl
  rcases hl with rfl | ⟨c, hc, hl⟩ | rfl
  · exact isItem_categoryLine _ _
  · have hmem : c ∈ cases := h.every.mem_iff.1 (List.mem_flatMap.2 ⟨g, hg, hc⟩)
    exact isItem_of_mem_caseLines (hids c hmem) (hlines c hmem).1 (hlines c hmem).2 hl
  · exact isItem_empty

/-- The lines of operators, and of their total, are lines inside a section. -/
theorem isItem_of_mem_operatorSection {ops : List (String × Nat)}
    (h : ∀ e ∈ ops, Text.OnOneLine e.1) : ∀ l ∈ operatorSection ops, IsItem l := by
  intro l hl
  simp only [operatorSection, List.mem_append, List.mem_map, List.mem_cons, List.not_mem_nil,
    or_false] at hl
  rcases hl with ⟨e, he, rfl⟩ | rfl | rfl
  · exact isItem_operatorLine _ (h e he)
  · exact isItem_total _
  · exact isItem_empty

/-- **The text report accounts for every case.** For labelled cases with contents and descriptions
on one line, whatever the grammar, the report on their figures has a section with every case once,
in the group of its category, and a section with the operators that occur, from the most frequent
one to the least frequent one. There is no report only if there are so many cases or tokens that a
number is too long to be written, or too large for a double; a share is never a division by zero. -/
theorem text_accounts_for_cases {elapsed : Float} {now : Instant}
    (hcases : r.cases = ls.map Labelled.case)
    (hlines : ∀ c ∈ r.cases,
      Text.OnOneLine c.content.display ∧ Text.OnOneLine c.description.display)
    (hm : Metrics.ofCases r.cases elapsed = .ok m) (hfigures : r.figures = m.figures)
    (hnow : r.now = .ok now) :
    (∃ text groups ops, r.text = .ok text ∧
      CasesAreListed r.cases m groups ∧ sectionOf "TEST CASES" text = groups.flatMap groupLines ∧
      OperatorsAreListed m ops ∧ sectionOf "OPERATORS" text = operatorSection ops) ∨
    (IsVast ls ∧ (r.text = .error .longNumber ∨ r.text = .error .beyondDoubles)) := by
  rw [hcases] at hm
  have hpiece := textLines_isPiece hm hfigures hnow
  rw [text]
  generalize r.textLines = outcome at hpiece ⊢
  cases hpiece with
  | tooLong hvast => exact .inr ⟨hvast, .inl rfl⟩
  | tooLarge hvast => exact .inr ⟨hvast, .inr rfl⟩
  | @made lines h =>
    obtain ⟨front, ops, between, hops, hnames, hbetween, rfl⟩ := h
    have hids : ∀ c ∈ r.cases, Text.OnOneLine c.id.display := by
      rw [hcases]
      exact List.forall_mem_map.2 fun l _ => l.onOneLine_id
    have hgroups : CasesAreListed r.cases m (groupsOf r.cases) := by
      rw [hcases]
      exact casesAreListed_groupsOf (Metrics.counts_of_ofCases hm)
    have hitems := isItem_of_mem_groupLines hgroups hids hlines
    have hoperators := isItem_of_mem_operatorSection hnames
    refine .inl ⟨_, groupsOf r.cases, ops, rfl, hgroups, ?_, hops, ?_⟩
    · exact sectionOf_unlines _ (by decide) hitems (isBehind_ending (by decide))
    · have hcaseSection : IsBehind "OPERATORS"
          (heading "TEST CASES" ++ (groupsOf r.cases).flatMap groupLines) :=
        isBehind_heading _ (by decide) (by decide) (by decide) hitems
      have hbehind := (hbetween.append hcaseSection).append (isBehind_ending (by decide))
      have hread := sectionOf_unlines front (by decide) hoperators hbehind
      simpa only [List.append_assoc] using hread

/-- The report on a sum and on its mutation. -/
def twoCasesReport (m : Metrics) : Report where
  cases := Metrics.twoCases.map Labelled.case
  figures := m.figures
  now := .ok ⟨2024, 1, 1, 0, 0, 1, 0, none⟩

theorem twoCasesReport_accounts_for_cases :
    (∀ c ∈ Metrics.twoCases.map Labelled.case,
      Text.OnOneLine c.content.display ∧ Text.OnOneLine c.description.display) ∧
    ∃ m, Metrics.ofCases (Metrics.twoCases.map Labelled.case) 0.0 = .ok m ∧
      ∃ text groups ops, (twoCasesReport m).text = .ok text ∧
        CasesAreListed (twoCasesReport m).cases m groups ∧
        sectionOf "TEST CASES" text = groups.flatMap groupLines ∧
        OperatorsAreListed m ops ∧ sectionOf "OPERATORS" text = operatorSection ops := by
  have hlines : ∀ c ∈ Metrics.twoCases.map Labelled.case,
      Text.OnOneLine c.content.display ∧ Text.OnOneLine c.description.display := by
    refine List.forall_mem_map.2 fun l hl => ?_
    simp only [Metrics.twoCases, List.mem_cons, List.not_mem_nil, or_false] at hl
    rcases hl with rfl | rfl
    · decide
    · decide
  have hbound : 6 < Decimal.finiteBound :=
    Nat.lt_of_lt_of_le (by decide : 6 < Decimal.twoPow 3) (Decimal.twoPow_le_twoPow (by decide))
  have hne : Metrics.twoCases ≠ [] := by simp [Metrics.twoCases]
  refine ⟨hlines, ?_⟩
  rcases Metrics.account_of_labelled hne 0.0 with ⟨m, hm, -⟩ | ⟨-, l, hl, hlarge⟩
  · refine ⟨m, hm, ?_⟩
    rcases text_accounts_for_cases (r := twoCasesReport m) rfl hlines hm rfl rfl with
      hreport | ⟨hvast, -⟩
    · exact hreport
    · -- Two cases with at most three tokens are few.
      have htokens : (Metrics.twoCases.map (·.tokens.length)).sum ≤ 6 :=
        List.sum_le_card_nsmul _ 3 (List.forall_mem_map.2 fun l hl =>
          (Metrics.isSmall_of_mem_twoCases hl).1)
      rcases hvast with hvast | hvast
      · have htwo : Metrics.twoCases.length = 2 := rfl
        omega
      · omega
  · obtain ⟨hlength, hdepth⟩ := Metrics.isSmall_of_mem_twoCases hl
    rcases hlarge with hlarge | ⟨d, hd, hlarge⟩
    · omega
    · obtain rfl := hdepth d hd
      omega

end Report

end GrammarSuite
