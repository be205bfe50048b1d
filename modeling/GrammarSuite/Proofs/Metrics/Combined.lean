import GrammarSuite.Proofs.Decimal.Overflow
import GrammarSuite.Proofs.Metrics.Account
import Mathlib.Algebra.BigOperators.Group.List.Basic
import Mathlib.Algebra.Order.BigOperators.Group.List
import Mathlib.Order.Bounds.Basic

/-!
# Figures of the same cases in another order, and of two lists together

The figures of labelled cases do not depend on the order of the cases. Those of two lists together
are known from the figures of each: numbers of cases, tables and totals are added up, and the
greatest and the least figures are the greater and the smaller of the two. Only averages and
percentages are not known in this way, but they exist where those of the two lists do.

## Main definitions

* `Table.Together`: three tables with the same keys whose values are related
* `CategoryFigures.Combines`, `Metrics.Combines`: the figures of two lists together

## Main results

* `Metrics.ofCases_perm`: the order of the cases makes no difference
* `Metrics.combines_of_ofCases`: the figures of two lists together
* `Metrics.figures_of_reordered_and_combined`: both, for all labelled cases
-/

namespace GrammarSuite

open GrammarSuite.Action

open Json (Misuse Number Value)

/-! ## Tables with the same keys -/

namespace Table

variable {κ ι α : Type} [DecidableEq κ] {r : α → α → α → Prop} {s t u : Table κ α}

/-- Three tables have the same keys, and the values of each key are related. -/
structure Together (r : α → α → α → Prop) (s t u : Table κ α) : Prop where
  keys : s.map Prod.fst = u.map Prod.fst ∧ t.map Prod.fst = u.map Prod.fst
  values : ∀ k x y z, s.get? k = some x → t.get? k = some y → u.get? k = some z → r x y z

theorem Together.nil : Together r ([] : Table κ α) [] [] :=
  ⟨⟨rfl, rfl⟩, fun _ _ _ _ h => nomatch h⟩

theorem Together.cons {k : κ} {x y z : α} (h : r x y z) (ht : Together r s t u) :
    Together r ((k, x) :: s) ((k, y) :: t) ((k, z) :: u) := by
  refine ⟨⟨by simp [ht.keys.1], by simp [ht.keys.2]⟩, fun k' x' y' z' hx hy hz => ?_⟩
  rw [Table.get?_cons] at hx hy hz
  by_cases hk : k = k'
  · rw [if_pos hk] at hx hy hz
    obtain ⟨rfl, rfl, rfl⟩ : x = x' ∧ y = y' ∧ z = z' := by simp_all
    exact h
  · rw [if_neg hk] at hx hy hz
    exact ht.values k' x' y' z' hx hy hz

/-- Tables that are given by their keys. -/
theorem together_map (nameOf : ι → κ) {f g h : ι → α} {keys : List ι}
    (hr : ∀ k ∈ keys, r (f k) (g k) (h k)) :
    Together r (keys.map fun k => (nameOf k, f k)) (keys.map fun k => (nameOf k, g k))
      (keys.map fun k => (nameOf k, h k)) := by
  induction keys with
  | nil => exact .nil
  | cons k rest ih =>
    obtain ⟨hfirst, hrest⟩ := List.forall_mem_cons.1 hr
    exact .cons hfirst (ih hrest)

end Table

namespace Metrics

variable {ns ms : List Int} {xs ys : List Labelled}

/-! ## Averages -/

/-- The average of whole numbers is that of their sum. -/
theorem averageOf_int (ns : List Int) :
    averageOf (ns.map .int) = average (.whole ns.sum) ns.length := by
  rw [averageOf, sumOf_int, List.length_map]
  rfl

theorem averageOf_perm (h : ns.Perm ms) : averageOf (ns.map .int) = averageOf (ms.map .int) := by
  rw [averageOf_int, averageOf_int, h.sum_eq, h.length_eq]

/-- A whole number that is not negative has an average exactly if the quotient is no infinite
double. -/
theorem average_eq_ok_iff {n : Int} {count : Nat} (hcount : count ≠ 0) :
    (∃ x, average (.whole n) count = .ok x) ↔
      Decimal.Magnitude.ofFloat (Decimal.nearest (n < 0) n.natAbs count) ≠ .infinite := by
  rw [average, if_neg hcount]
  dsimp only
  split
  · rename_i hinfinite
    exact iff_of_false (by simp) (not_not_intro hinfinite)
  · rename_i hfinite
    exact iff_of_true ⟨_, rfl⟩ hfinite

/-- **Two lists of numbers together have an average if each has one**, as it lies between the two.
-/
theorem exists_averageOf_append (hns : ∀ n ∈ ns, 0 ≤ n) (hms : ∀ m ∈ ms, 0 ≤ m)
    (h : ∃ x, averageOf (ns.map .int) = .ok x) (h' : ∃ x, averageOf (ms.map .int) = .ok x) :
    ∃ x, averageOf ((ns ++ ms).map .int) = .ok x := by
  rcases eq_or_ne ns [] with rfl | hne
  · exact h'
  rcases eq_or_ne ms [] with rfl | hne'
  · rwa [List.append_nil]
  have hlength := List.length_pos_iff.2 hne
  have hlength' := List.length_pos_iff.2 hne'
  have hsum := List.sum_nonneg hns
  have hsum' := List.sum_nonneg hms
  rw [averageOf_int, average_eq_ok_iff hlength.ne'] at h
  rw [averageOf_int, average_eq_ok_iff hlength'.ne'] at h'
  rw [averageOf_int, List.sum_append, List.length_append,
    average_eq_ok_iff (Nat.add_pos_left hlength _).ne', Int.natAbs_add_of_nonneg hsum hsum']
  exact Decimal.nearest_add_ne_infinite hlength hlength' h h'

/-! ## The least and the greatest -/

theorem greatest_perm (h : ns.Perm ms) : greatest (ns.map .int) = greatest (ms.map .int) := by
  rcases eq_or_ne ns [] with rfl | hne
  · rw [h.nil_eq]
  · obtain ⟨n, hn, hgreatest⟩ := greatest_int hne
    have hne' : ms ≠ [] := fun hnil => hne (hnil ▸ h).eq_nil
    obtain ⟨m, hm, hgreatest'⟩ := greatest_int hne'
    have hset : { k | k ∈ ms } = { k | k ∈ ns } := Set.ext fun k => h.mem_iff.symm
    rw [hset] at hgreatest'
    rw [hn, hm, hgreatest.unique hgreatest']

theorem least_perm (h : ns.Perm ms) : least (ns.map .int) = least (ms.map .int) := by
  rcases eq_or_ne ns [] with rfl | hne
  · rw [h.nil_eq]
  · obtain ⟨n, hn, hleast⟩ := least_int hne
    have hne' : ms ≠ [] := fun hnil => hne (hnil ▸ h).eq_nil
    obtain ⟨m, hm, hleast'⟩ := least_int hne'
    have hset : { k | k ∈ ms } = { k | k ∈ ns } := Set.ext fun k => h.mem_iff.symm
    rw [hset] at hleast'
    rw [hn, hm, hleast.unique hleast']

/-- A value is the greater of two numbers. -/
def IsMax (a b c : Value) : Prop := ∃ i j : Int, a = .int i ∧ b = .int j ∧ c = .int (max i j)

/-- A value is the smaller of two numbers. -/
def IsMin (a b c : Value) : Prop := ∃ i j : Int, a = .int i ∧ b = .int j ∧ c = .int (min i j)

/-- The greatest of a list is not negative where its numbers are not, also if there are none. -/
theorem exists_greatest (hns : ∀ n ∈ ns, 0 ≤ n) :
    ∃ n, greatest (ns.map .int) = .ok (.int n) ∧ 0 ≤ n ∧
      (ns ≠ [] → IsGreatest { k | k ∈ ns } n) := by
  rcases eq_or_ne ns [] with rfl | hne
  · exact ⟨0, rfl, le_rfl, fun h => absurd rfl h⟩
  · obtain ⟨n, hn, hgreatest⟩ := greatest_int hne
    exact ⟨n, hn, hns n hgreatest.1, fun _ => hgreatest⟩

/-- **The greatest of two lists together is the greater one**; that of an empty list counts as zero.
-/
theorem isMax_of_greatest {a b c : Value} (hns : ∀ n ∈ ns, 0 ≤ n) (hms : ∀ m ∈ ms, 0 ≤ m)
    (ha : greatest (ns.map .int) = .ok a) (hb : greatest (ms.map .int) = .ok b)
    (hc : greatest ((ns ++ ms).map .int) = .ok c) : IsMax a b c := by
  obtain ⟨i, hi, hipos, hgreatest⟩ := exists_greatest hns
  obtain ⟨j, hj, hjpos, hgreatest'⟩ := exists_greatest hms
  obtain rfl := Except.ok.inj (ha.symm.trans hi)
  obtain rfl := Except.ok.inj (hb.symm.trans hj)
  refine ⟨i, j, rfl, rfl, ?_⟩
  rcases eq_or_ne ns [] with rfl | hne
  · obtain rfl : 0 = i := by simpa [greatest] using hi
    obtain rfl := Except.ok.inj (hc.symm.trans hj)
    rw [max_eq_right hjpos]
  rcases eq_or_ne ms [] with rfl | hne'
  · obtain rfl : 0 = j := by simpa [greatest] using hj
    rw [List.append_nil] at hc
    obtain rfl := Except.ok.inj (hc.symm.trans hi)
    rw [max_eq_left hipos]
  have hboth : ns ++ ms ≠ [] := by simp [hne]
  obtain ⟨k, hk, hgreatest''⟩ := greatest_int hboth
  obtain rfl := Except.ok.inj (hc.symm.trans hk)
  have hset : { k | k ∈ ns ++ ms } = { k | k ∈ ns } ∪ { k | k ∈ ms } :=
    Set.ext fun k => List.mem_append
  rw [hset] at hgreatest''
  rw [hgreatest''.unique ((hgreatest hne).union (hgreatest' hne'))]

/-- The least of two lists together is the smaller one. -/
theorem isMin_of_least {a b c : Value} (hne : ns ≠ []) (hne' : ms ≠ [])
    (ha : least (ns.map .int) = .ok a) (hb : least (ms.map .int) = .ok b)
    (hc : least ((ns ++ ms).map .int) = .ok c) : IsMin a b c := by
  obtain ⟨i, hi, hleast⟩ := least_int hne
  obtain ⟨j, hj, hleast'⟩ := least_int hne'
  have hboth : ns ++ ms ≠ [] := by simp [hne]
  obtain ⟨k, hk, hleast''⟩ := least_int hboth
  obtain rfl := Except.ok.inj (ha.symm.trans hi)
  obtain rfl := Except.ok.inj (hb.symm.trans hj)
  obtain rfl := Except.ok.inj (hc.symm.trans hk)
  have hset : { k | k ∈ ns ++ ms } = { k | k ∈ ns } ∪ { k | k ∈ ms } :=
    Set.ext fun k => List.mem_append
  rw [hset] at hleast''
  exact ⟨i, j, rfl, rfl, by rw [hleast''.unique (hleast.union hleast')]⟩

/-! ## Categories -/

/-- The numbers of tokens of labelled cases. -/
def lengths (ls : List Labelled) : List Int := ls.map fun l => (l.tokens.length : Int)

/-- The numbers of operators of labelled cases. -/
def operatorTotals (ls : List Labelled) : List Int :=
  ls.map fun l => ((Token.operators.map l.tokens.count).sum : Nat)

theorem lengths_nonneg : ∀ n ∈ lengths xs, 0 ≤ n := by
  simp [lengths]

theorem operatorTotals_nonneg : ∀ n ∈ operatorTotals xs, 0 ≤ n := by
  simp only [operatorTotals, List.mem_map]
  rintro _ ⟨l, -, rfl⟩
  exact Int.natCast_nonneg _

/-- The cases of a category among labelled ones. -/
def ofCategory (category : Category) (ls : List Labelled) : List Labelled :=
  ls.filter (·.case.category = category)

theorem filter_map_case (category : Category) (ls : List Labelled) :
    (ls.map Labelled.case).filter (·.category = category) =
      (ofCategory category ls).map Labelled.case := List.filter_map

/-- The figures of labelled cases of one category. -/
theorem categoryFigures_eq (ls : List Labelled) : categoryFigures (ls.map Labelled.case) = (do
    let averageTokens ← averageOf ((lengths ls).map .int)
    let maxTokens ← greatest ((lengths ls).map .int)
    let averageOperators ← averageOf ((operatorTotals ls).map .int)
    pure {
      count := ls.length
      averageTokens, maxTokens, averageOperators
      unbalanced := (ls.map Labelled.case).countP fun c =>
        !((c.metadata.get? "parens_balanced").getD (.bool true)).truthy }) := by
  have htokens : (ls.map Labelled.case).map
      (fun c => (c.metadata.get? "token_count").getD (.int 0)) = (lengths ls).map .int := by
    rw [lengths, List.map_map, List.map_map]
    refine List.map_congr_left fun l _ => ?_
    rw [Function.comp_apply, l.get?_tokenCount]
    rfl
  have hoperators : (ls.map Labelled.case).map
      (fun c => (c.metadata.get? "total_operators").getD (.int 0)) =
        (operatorTotals ls).map .int := by
    rw [operatorTotals, List.map_map, List.map_map]
    refine List.map_congr_left fun l _ => ?_
    rw [Function.comp_apply, l.get?_totalOperators]
    rfl
  rw [categoryFigures, htokens, hoperators, List.length_map]

theorem lengths_perm (h : xs.Perm ys) : (lengths xs).Perm (lengths ys) := h.map _

theorem operatorTotals_perm (h : xs.Perm ys) : (operatorTotals xs).Perm (operatorTotals ys) :=
  h.map _

theorem lengths_append (xs ys : List Labelled) : lengths (xs ++ ys) = lengths xs ++ lengths ys :=
  List.map_append

theorem operatorTotals_append (xs ys : List Labelled) :
    operatorTotals (xs ++ ys) = operatorTotals xs ++ operatorTotals ys := List.map_append

/-- The order of the cases of a category makes no difference. -/
theorem categoryFigures_perm (h : xs.Perm ys) :
    categoryFigures (xs.map Labelled.case) = categoryFigures (ys.map Labelled.case) := by
  rw [categoryFigures_eq, categoryFigures_eq, averageOf_perm (lengths_perm h),
    greatest_perm (lengths_perm h), averageOf_perm (operatorTotals_perm h), h.length_eq,
    (h.map Labelled.case).countP_eq]

theorem figuresOfEach_perm (h : xs.Perm ys) (categories : List Category) :
    figuresOfEach (xs.map Labelled.case) categories =
      figuresOfEach (ys.map Labelled.case) categories := by
  induction categories with
  | nil => rfl
  | cons category rest ih =>
    have hcategory : (ofCategory category xs).Perm (ofCategory category ys) := h.filter _
    rw [figuresOfEach, figuresOfEach, ih, filter_map_case, filter_map_case,
      categoryFigures_perm hcategory]

/-- What the figures of a category are taken from. -/
theorem categoryFigures_eq_ok {ls : List Labelled} {f : CategoryFigures}
    (h : categoryFigures (ls.map Labelled.case) = .ok f) :
    (∃ x, averageOf ((lengths ls).map .int) = .ok x) ∧
      (∃ x, averageOf ((operatorTotals ls).map .int) = .ok x) ∧
      f.count = ls.length ∧ greatest ((lengths ls).map .int) = .ok f.maxTokens ∧
      f.unbalanced = (ls.map Labelled.case).countP fun c =>
        !((c.metadata.get? "parens_balanced").getD (.bool true)).truthy := by
  rw [categoryFigures_eq] at h
  obtain ⟨averageTokens, htokens, h⟩ := bind_eq_ok_iff.1 h
  obtain ⟨maxTokens, hmax, h⟩ := bind_eq_ok_iff.1 h
  obtain ⟨averageOperators, hoperators, h⟩ := bind_eq_ok_iff.1 h
  obtain rfl := Except.ok.inj h
  exact ⟨⟨_, htokens⟩, ⟨_, hoperators⟩, rfl, hmax, rfl⟩

end Metrics

/-- The figures of one category in two lists, and in both together. -/
structure CategoryFigures.Combines (f g h : CategoryFigures) : Prop where
  count : h.count = f.count + g.count
  unbalanced : h.unbalanced = f.unbalanced + g.unbalanced
  maxTokens : Metrics.IsMax f.maxTokens g.maxTokens h.maxTokens

namespace Metrics

variable {xs ys : List Labelled}

theorem combines_of_categoryFigures {f g h : CategoryFigures}
    (hf : categoryFigures (xs.map Labelled.case) = .ok f)
    (hg : categoryFigures (ys.map Labelled.case) = .ok g)
    (hh : categoryFigures ((xs ++ ys).map Labelled.case) = .ok h) : f.Combines g h := by
  obtain ⟨-, -, hcount, hmax, hunbalanced⟩ := categoryFigures_eq_ok hf
  obtain ⟨-, -, hcount', hmax', hunbalanced'⟩ := categoryFigures_eq_ok hg
  obtain ⟨-, -, hcount'', hmax'', hunbalanced''⟩ := categoryFigures_eq_ok hh
  constructor
  case count => rw [hcount, hcount', hcount'', List.length_append]
  case unbalanced =>
    rw [hunbalanced, hunbalanced', hunbalanced'', List.map_append, List.countP_append]
  case maxTokens =>
    rw [lengths_append] at hmax''
    exact isMax_of_greatest lengths_nonneg lengths_nonneg hmax hmax' hmax''

/-- The cases of a category in two lists together have figures if those in each list have. -/
theorem exists_categoryFigures_append
    (hf : ∃ f, categoryFigures (xs.map Labelled.case) = .ok f)
    (hg : ∃ g, categoryFigures (ys.map Labelled.case) = .ok g) :
    ∃ h, categoryFigures ((xs ++ ys).map Labelled.case) = .ok h := by
  obtain ⟨f, hf⟩ := hf
  obtain ⟨g, hg⟩ := hg
  obtain ⟨htokens, hoperators, -⟩ := categoryFigures_eq_ok hf
  obtain ⟨htokens', hoperators', -⟩ := categoryFigures_eq_ok hg
  obtain ⟨_, haverage⟩ := exists_averageOf_append lengths_nonneg lengths_nonneg htokens htokens'
  obtain ⟨_, haverage'⟩ :=
    exists_averageOf_append operatorTotals_nonneg operatorTotals_nonneg hoperators hoperators'
  have hnonneg : ∀ n ∈ lengths xs ++ lengths ys, 0 ≤ n := fun n hn =>
    (List.mem_append.1 hn).elim (lengths_nonneg n) (lengths_nonneg n)
  obtain ⟨n, hmax, -⟩ := exists_greatest hnonneg
  rw [categoryFigures_eq, lengths_append, operatorTotals_append]
  exact ⟨_, bind_eq_ok_iff.2 ⟨_, haverage, bind_eq_ok_iff.2 ⟨_, hmax, bind_eq_ok_iff.2
    ⟨_, haverage', rfl⟩⟩⟩⟩

theorem ofCategory_append (category : Category) (xs ys : List Labelled) :
    ofCategory category (xs ++ ys) = ofCategory category xs ++ ofCategory category ys :=
  List.filter_append ..

/-- The figures of each category in two lists, and in both together. -/
theorem together_figuresOfEach {categories : List Category} {s t : Table String CategoryFigures}
    (hs : figuresOfEach (xs.map Labelled.case) categories = .ok s)
    (ht : figuresOfEach (ys.map Labelled.case) categories = .ok t) :
    ∃ u, figuresOfEach ((xs ++ ys).map Labelled.case) categories = .ok u ∧
      Table.Together CategoryFigures.Combines s t u := by
  induction categories generalizing s t with
  | nil =>
    obtain rfl := Except.ok.inj hs
    obtain rfl := Except.ok.inj ht
    exact ⟨[], rfl, .nil⟩
  | cons category rest ih =>
    rw [figuresOfEach, filter_map_case] at hs ht
    obtain ⟨f, hf, hs⟩ := bind_eq_ok_iff.1 hs
    obtain ⟨s, hs', hs⟩ := bind_eq_ok_iff.1 hs
    obtain ⟨g, hg, ht⟩ := bind_eq_ok_iff.1 ht
    obtain ⟨t, ht', ht⟩ := bind_eq_ok_iff.1 ht
    obtain rfl := Except.ok.inj hs
    obtain rfl := Except.ok.inj ht
    obtain ⟨h, hh⟩ := exists_categoryFigures_append ⟨f, hf⟩ ⟨g, hg⟩
    obtain ⟨u, hu, htogether⟩ := ih hs' ht'
    refine ⟨(category.name, h) :: u, ?_, .cons (combines_of_categoryFigures hf hg hh) htogether⟩
    rw [figuresOfEach, filter_map_case, ofCategory_append, hh, hu]
    rfl

/-! ## Another order -/

/-- The depths of labelled cases, where they have one. -/
def depths (ls : List Labelled) : List Int := ls.filterMap (·.origin.depth?)

theorem depths_append (xs ys : List Labelled) : depths (xs ++ ys) = depths xs ++ depths ys :=
  List.filterMap_append

theorem entries_lengths (ls : List Labelled) :
    entries "token_count" (ls.map Labelled.case) = (lengths ls).map .int := entries_tokenCount ls

theorem entries_depths (ls : List Labelled) :
    entries "depth" (ls.map Labelled.case) = (depths ls).map .int := entries_depth ls

/-- The mutations of labelled cases by their kinds. -/
theorem mutations_eq (ls : List Labelled) :
    countKinds "mutation_kind" (MutationKind.all.map fun kind => (kind.name, 0))
        ((ls.map Labelled.case).filter (·.category = .invalid)) =
      .ok (MutationKind.all.map fun kind =>
        (kind.name, ls.countP (·.origin.mutationKind? = some kind))) :=
  countKinds_filter MutationKind.name_injective (fun _ _ => Labelled.get?_mutationKind)
    (fun l => l.isInvalid_iff) MutationKind.all ls

/-- The extreme cases among labelled ones by their kinds. -/
theorem extremes_eq (ls : List Labelled) :
    countKinds "extreme_kind" (ExtremeKind.all.map fun kind => (kind.name, 0))
        ((ls.map Labelled.case).filter (·.category = .extreme)) =
      .ok (ExtremeKind.all.map fun kind =>
        (kind.name, ls.countP (·.origin.extremeKind? = some kind))) :=
  countKinds_filter ExtremeKind.name_injective (fun _ _ => Labelled.get?_extremeKind)
    (fun l => l.isExtreme_iff) ExtremeKind.all ls

/-- The operators of labelled cases. -/
theorem operators_eq (ls : List Labelled) :
    countOperators (Token.operators.map fun op => (op, .whole 0)) (ls.map Labelled.case) =
      .ok (Token.operators.map fun op =>
        (op, .whole ((ls.map fun l => l.tokens.count op).sum : Nat))) := by
  refine (countOperators_eq ls fun _ => 0).trans ?_
  simp only [Int.zero_add]

/-- **The order of labelled cases makes no difference to their figures.** -/
theorem ofCases_perm (h : xs.Perm ys) (elapsed : Float) :
    ofCases (xs.map Labelled.case) elapsed = ofCases (ys.map Labelled.case) elapsed := by
  have hcases := h.map Labelled.case
  have hempty : (xs.map Labelled.case).isEmpty = (ys.map Labelled.case).isEmpty := by
    rw [Bool.eq_iff_iff, List.isEmpty_iff_length_eq_zero, List.isEmpty_iff_length_eq_zero,
      hcases.length_eq]
  have hdepths : (depths xs).Perm (depths ys) := h.filterMap _
  have hoperators : ∀ op, (xs.map fun l => l.tokens.count op).sum =
      (ys.map fun l => l.tokens.count op).sum := fun op => (h.map _).sum_eq
  simp only [ofCases, hempty, entries_lengths, entries_depths, mutations_eq, extremes_eq,
    operators_eq, averageOf_perm (lengths_perm h), least_perm (lengths_perm h),
    greatest_perm (lengths_perm h), averageOf_perm hdepths, greatest_perm hdepths, hoperators,
    h.countP_eq, hcases.countP_eq, hcases.length_eq, figuresOfEach_perm h]

/-! ## Two lists together -/

/-- A number is the sum of two whole numbers. -/
def IsSum (x y z : Number) : Prop := ∃ i j : Int, x = .whole i ∧ y = .whole j ∧ z = .whole (i + j)

/-- The figures of two lists, and of both together. -/
structure Combines (a b m : Metrics) : Prop where
  total : m.totalCases = a.totalCases + b.totalCases
  valid : m.validCases = a.validCases + b.validCases
  invalid : m.invalidCases = a.invalidCases + b.invalidCases
  extreme : m.extremeCases = a.extremeCases + b.extremeCases
  operators : Table.Together IsSum a.operators b.operators m.operators
  totalOperators : IsSum a.totalOperators b.totalOperators m.totalOperators
  mutations : Table.Together (fun i j k => k = i + j) a.mutations b.mutations m.mutations
  extremes : Table.Together (fun i j k => k = i + j) a.extremes b.extremes m.extremes
  categories : Table.Together CategoryFigures.Combines a.categories b.categories m.categories
  minLength : IsMin a.minLength b.minLength m.minLength
  maxLength : IsMax a.maxLength b.maxLength m.maxLength
  maxDepth : IsMax a.maxDepth b.maxDepth m.maxDepth

/-- Labelled cases have figures if their averages exist. -/
theorem exists_ofCases {ls : List Labelled} (hne : ls ≠ [])
    (hlengths : ∃ x, averageOf ((lengths ls).map .int) = .ok x)
    (hdepths : ∃ x, averageOf ((depths ls).map .int) = .ok x)
    (hcategories : ∃ t, figuresOfEach (ls.map Labelled.case) Category.all = .ok t)
    (elapsed : Float) : ∃ m, ofCases (ls.map Labelled.case) elapsed = .ok m := by
  obtain ⟨averageLength, hlengths⟩ := hlengths
  obtain ⟨averageDepth, hdepths⟩ := hdepths
  obtain ⟨categories, hcategories⟩ := hcategories
  have hlist : lengths ls ≠ [] := by simpa [lengths] using hne
  obtain ⟨_, hmin, -⟩ := least_int hlist
  obtain ⟨_, hmax, -⟩ := greatest_int hlist
  obtain ⟨_, hdepth⟩ : ∃ n, greatest ((depths ls).map .int) = .ok n := by
    rcases eq_or_ne (depths ls) [] with hnil | hne
    · exact ⟨_, by rw [hnil]; rfl⟩
    · obtain ⟨n, hn, -⟩ := greatest_int hne
      exact ⟨_, hn⟩
  have hwhole : AreWhole ((Token.operators.map fun op =>
      (op, Number.whole ((ls.map fun l => l.tokens.count op).sum : Nat))).map
        fun e => e.2.toValue) := areWhole_totals fun e he => by
    obtain ⟨op, -, rfl⟩ := List.mem_map.1 he
    exact ⟨_, rfl⟩
  obtain ⟨_, htotal, -⟩ := sumOf_eq_ok hwhole
  rw [ofCases, if_neg (by simpa using hne), entries_lengths, entries_depths]
  exact ⟨_, bind_eq_ok_iff.2 ⟨_, hlengths, bind_eq_ok_iff.2 ⟨_, hmin, bind_eq_ok_iff.2 ⟨_, hmax,
    bind_eq_ok_iff.2 ⟨_, hdepth, bind_eq_ok_iff.2 ⟨_, hdepths, bind_eq_ok_iff.2 ⟨_, operators_eq ls,
    bind_eq_ok_iff.2 ⟨_, htotal, bind_eq_ok_iff.2 ⟨_, mutations_eq ls, bind_eq_ok_iff.2
    ⟨_, extremes_eq ls, bind_eq_ok_iff.2 ⟨_, hcategories, rfl⟩⟩⟩⟩⟩⟩⟩⟩⟩⟩⟩

/-- What is known of the averages of cases that have figures. -/
theorem averages_of_ofCases {ls : List Labelled} {elapsed : Float} {m : Metrics} (hne : ls ≠ [])
    (h : ofCases (ls.map Labelled.case) elapsed = .ok m) :
    (∃ x, averageOf ((lengths ls).map .int) = .ok x) ∧
      ∃ x, averageOf ((depths ls).map .int) = .ok x := by
  obtain ⟨-, hdepths⟩ := parts_of_ofCases (by simpa using hne) h
  rw [entries_depths] at hdepths
  rw [ofCases, if_neg (by simpa using hne), entries_lengths] at h
  obtain ⟨averageLength, hlengths, -⟩ := bind_eq_ok_iff.1 h
  exact ⟨⟨_, hlengths⟩, ⟨_, hdepths⟩⟩

/-- The figures of labelled cases, but for their averages, by what the labels tell. -/
structure ByLabels (ls : List Labelled) (m : Metrics) : Prop where
  minLength : least ((lengths ls).map .int) = .ok m.minLength
  maxLength : greatest ((lengths ls).map .int) = .ok m.maxLength
  maxDepth : greatest ((depths ls).map .int) = .ok m.maxDepth
  operators : m.operators = Token.operators.map fun op =>
    (op, .whole ((ls.map fun l => l.tokens.count op).sum : Nat))
  mutations : m.mutations = MutationKind.all.map fun kind =>
    (kind.name, ls.countP (·.origin.mutationKind? = some kind))
  extremes : m.extremes = ExtremeKind.all.map fun kind =>
    (kind.name, ls.countP (·.origin.extremeKind? = some kind))

theorem byLabels_of_parts {ls : List Labelled} {m : Metrics} (h : Parts (ls.map Labelled.case) m) :
    ByLabels ls m where
  minLength := by
    rw [← entries_lengths]
    exact h.minLength
  maxLength := by
    rw [← entries_lengths]
    exact h.maxLength
  maxDepth := by
    rw [← entries_depths]
    exact h.maxDepth
  operators := Except.ok.inj (h.operators.symm.trans (operators_eq ls))
  mutations := Except.ok.inj (h.mutations.symm.trans (mutations_eq ls))
  extremes := Except.ok.inj (h.extremes.symm.trans (extremes_eq ls))

/-- The labels tell the figures also if there are no cases. -/
theorem byLabels_of_ofCases {ls : List Labelled} {elapsed : Float} {m : Metrics}
    (h : ofCases (ls.map Labelled.case) elapsed = .ok m) : ByLabels ls m := by
  by_cases hne : ls = []
  · subst hne
    obtain rfl := Except.ok.inj h
    exact ⟨rfl, rfl, rfl, rfl, rfl, rfl⟩
  · exact byLabels_of_parts (parts_of_ofCases (by simpa using hne) h).1

/-- The counts are those of the cases also if there are none. -/
theorem counts_of_ofCases {ls : List Labelled} {elapsed : Float} {m : Metrics}
    (h : ofCases (ls.map Labelled.case) elapsed = .ok m) :
    Counts (ls.map Labelled.case) m := by
  have hcounted : ∀ c ∈ ls.map Labelled.case, c.IsCounted :=
    List.forall_mem_map.2 fun l _ => l.isCounted
  have hfigure := ofCases_isFigure hcounted elapsed
  rw [h] at hfigure
  exact hfigure

/-- The total of the operators is the number of the tokens that are operators. -/
theorem totalOperators_of_ofCases {ls : List Labelled} {elapsed : Float} {m : Metrics}
    (h : ofCases (ls.map Labelled.case) elapsed = .ok m) :
    m.totalOperators = .whole
      ((Token.operators.map fun op => (ls.map fun l => l.tokens.count op).sum).sum : Nat) := by
  by_cases hne : ls = []
  · subst hne
    obtain rfl := Except.ok.inj h
    rfl
  · exact (allOperators_of_parts (parts_of_ofCases (by simpa using hne) h).1).2

theorem combines_of_parts (hxs : xs ≠ []) (hys : ys ≠ []) (hdepth : ∀ d ∈ depths xs, 0 ≤ d)
    (hdepth' : ∀ d ∈ depths ys, 0 ≤ d) {a b m : Metrics} (ha : Parts (xs.map Labelled.case) a)
    (hb : Parts (ys.map Labelled.case) b) (hm : Parts ((xs ++ ys).map Labelled.case) m) :
    Combines a b m := by
  have hlabels := byLabels_of_parts ha
  have hlabels' := byLabels_of_parts hb
  have hboth := byLabels_of_parts hm
  have hshortest := hboth.minLength
  have hlongest := hboth.maxLength
  have hdeepest := hboth.maxDepth
  rw [lengths_append] at hshortest hlongest
  rw [depths_append] at hdeepest
  constructor
  case total =>
    rw [hm.counts.total, ha.counts.total, hb.counts.total, List.map_append, List.length_append]
  case valid =>
    rw [hm.counts.valid, ha.counts.valid, hb.counts.valid, List.map_append, List.countP_append]
  case invalid =>
    rw [hm.counts.invalid, ha.counts.invalid, hb.counts.invalid, List.map_append,
      List.countP_append]
  case extreme =>
    rw [hm.counts.extreme, ha.counts.extreme, hb.counts.extreme, List.map_append,
      List.countP_append]
  case operators =>
    rw [hlabels.operators, hlabels'.operators, hboth.operators]
    refine Table.together_map id fun op _ => ⟨_, _, rfl, rfl, ?_⟩
    rw [List.map_append, List.sum_append, Nat.cast_add]
  case totalOperators =>
    rw [(allOperators_of_parts ha).2, (allOperators_of_parts hb).2, (allOperators_of_parts hm).2]
    refine ⟨_, _, rfl, rfl, ?_⟩
    rw [sum_operators, sum_operators, sum_operators, List.map_append, List.sum_append, Nat.cast_add]
  case mutations =>
    rw [hlabels.mutations, hlabels'.mutations, hboth.mutations]
    exact Table.together_map MutationKind.name fun kind _ => List.countP_append
  case extremes =>
    rw [hlabels.extremes, hlabels'.extremes, hboth.extremes]
    exact Table.together_map ExtremeKind.name fun kind _ => List.countP_append
  case categories =>
    obtain ⟨categories, hcategories, htogether⟩ :=
      together_figuresOfEach ha.categories hb.categories
    rwa [Except.ok.inj (hm.categories.symm.trans hcategories)]
  case minLength =>
    exact isMin_of_least (by simpa [lengths] using hxs) (by simpa [lengths] using hys)
      hlabels.minLength hlabels'.minLength hshortest
  case maxLength =>
    exact isMax_of_greatest lengths_nonneg lengths_nonneg hlabels.maxLength hlabels'.maxLength
      hlongest
  case maxDepth =>
    exact isMax_of_greatest hdepth hdepth' hlabels.maxDepth hlabels'.maxDepth hdeepest

/-- **The figures of two lists together are known from the figures of each.** -/
theorem combines_of_ofCases (hxs : xs ≠ []) (hys : ys ≠ []) (hdepth : ∀ d ∈ depths xs, 0 ≤ d)
    (hdepth' : ∀ d ∈ depths ys, 0 ≤ d) {first second : Float} {a b : Metrics}
    (ha : ofCases (xs.map Labelled.case) first = .ok a)
    (hb : ofCases (ys.map Labelled.case) second = .ok b) (elapsed : Float) :
    ∃ m, ofCases ((xs ++ ys).map Labelled.case) elapsed = .ok m ∧ Combines a b m := by
  obtain ⟨hpartsA, -⟩ := parts_of_ofCases (by simpa using hxs) ha
  obtain ⟨hpartsB, -⟩ := parts_of_ofCases (by simpa using hys) hb
  obtain ⟨hlengths, hdepths⟩ := averages_of_ofCases hxs ha
  obtain ⟨hlengths', hdepths'⟩ := averages_of_ofCases hys hb
  obtain ⟨categories, hcategories, -⟩ :=
    together_figuresOfEach hpartsA.categories hpartsB.categories
  have hne : xs ++ ys ≠ [] := by simp [hxs]
  -- All averages of the two lists together exist, so that they have figures.
  have hlengthsM := exists_averageOf_append lengths_nonneg lengths_nonneg hlengths hlengths'
  have hdepthsM := exists_averageOf_append hdepth hdepth' hdepths hdepths'
  rw [← lengths_append] at hlengthsM
  rw [← depths_append] at hdepthsM
  obtain ⟨m, hm⟩ := exists_ofCases hne hlengthsM hdepthsM ⟨_, hcategories⟩ elapsed
  obtain ⟨hparts, -⟩ := parts_of_ofCases (by simpa using hne) hm
  exact ⟨m, hm, combines_of_parts hxs hys hdepth hdepth' hpartsA hpartsB hparts⟩

/-- **The order of labelled cases makes no difference to their figures, and the figures of two lists
together are known from the figures of each**, where no case has a negative depth. The two lists
have figures, unless one of their cases has so many tokens, or such a depth, that an average is no
double. -/
theorem figures_of_reordered_and_combined :
    (∀ (xs ys : List Labelled) (elapsed : Float), xs.Perm ys →
      ofCases (xs.map Labelled.case) elapsed = ofCases (ys.map Labelled.case) elapsed) ∧
    ∀ (xs ys : List Labelled) (first second elapsed : Float), xs ≠ [] → ys ≠ [] →
      (∀ l ∈ xs ++ ys, ∀ d, l.origin.depth? = some d → 0 ≤ d) →
      (∃ a b m, ofCases (xs.map Labelled.case) first = .ok a ∧
        ofCases (ys.map Labelled.case) second = .ok b ∧
        ofCases ((xs ++ ys).map Labelled.case) elapsed = .ok m ∧ Combines a b m) ∨
      ((ofCases (xs.map Labelled.case) first = .error .quotientBeyondDoubles ∨
        ofCases (ys.map Labelled.case) second = .error .quotientBeyondDoubles) ∧
        ∃ l ∈ xs ++ ys, l.IsLarge) := by
  refine ⟨fun xs ys elapsed h => ofCases_perm h elapsed, ?_⟩
  intro xs ys first second elapsed hxs hys hdepth
  have hdepths : ∀ ls ⊆ xs ++ ys, ∀ d ∈ depths ls, 0 ≤ d := by
    intro ls hsub d hd
    obtain ⟨l, hl, hd⟩ := List.mem_filterMap.1 hd
    exact hdepth l (hsub hl) d hd
  rcases account_of_labelled hxs first with ⟨a, ha, -⟩ | ⟨ha, l, hl, hlarge⟩
  · rcases account_of_labelled hys second with ⟨b, hb, -⟩ | ⟨hb, l, hl, hlarge⟩
    · obtain ⟨m, hm, hcombines⟩ := combines_of_ofCases hxs hys
        (hdepths xs (List.subset_append_left ..)) (hdepths ys (List.subset_append_right ..))
        ha hb elapsed
      exact .inl ⟨a, b, m, ha, hb, hm, hcombines⟩
    · exact .inr ⟨.inr hb, l, List.mem_append_right _ hl, hlarge⟩
  · exact .inr ⟨.inl ha, l, List.mem_append_left _ hl, hlarge⟩

/-- The cases of a sum and of its mutation have few tokens, and no depth but zero. -/
theorem isSmall_of_mem_twoCases {l : Labelled} (h : l ∈ twoCases) :
    l.tokens.length ≤ 3 ∧ ∀ d, l.origin.depth? = some d → d = 0 := by
  simp only [twoCases, List.mem_cons, List.not_mem_nil, or_false] at h
  rcases h with rfl | rfl <;> rw [Labelled.tokens_eq]
  · exact ⟨by decide, fun d hd => (Option.some.inj hd).symm⟩
  · refine ⟨by decide, ?_⟩
    intro d hd
    cases hd

/-- The figures of a sum and of its mutation, in either order, combine. -/
theorem figures_of_twoCases_combined :
    twoCases.reverse.Perm twoCases ∧
      ofCases (twoCases.reverse.map Labelled.case) 0.0 =
        ofCases (twoCases.map Labelled.case) 0.0 ∧
      twoCases.take 1 ≠ [] ∧ twoCases.drop 1 ≠ [] ∧
      ∃ a b m, ofCases ((twoCases.take 1).map Labelled.case) 0.0 = .ok a ∧
        ofCases ((twoCases.drop 1).map Labelled.case) 0.0 = .ok b ∧
        ofCases (twoCases.map Labelled.case) 0.0 = .ok m ∧ Combines a b m := by
  obtain ⟨hreordered, hcombined⟩ := figures_of_reordered_and_combined
  have hperm : twoCases.reverse.Perm twoCases := List.reverse_perm _
  have hfirst : twoCases.take 1 ≠ [] := by simp [twoCases]
  have hsecond : twoCases.drop 1 ≠ [] := by simp [twoCases]
  refine ⟨hperm, hreordered _ _ 0.0 hperm, hfirst, hsecond, ?_⟩
  have hboth := hcombined _ _ 0.0 0.0 0.0 hfirst hsecond
  rw [List.take_append_drop] at hboth
  rcases hboth fun l hl d hd => ((isSmall_of_mem_twoCases hl).2 d hd).ge with
    hfigures | ⟨-, l, hl, hlarge⟩
  · exact hfigures
  · -- Neither case is large.
    have hbound : 3 < Decimal.finiteBound :=
      Nat.lt_of_lt_of_le (by decide : 3 < Decimal.twoPow 2) (Decimal.twoPow_le_twoPow (by decide))
    obtain ⟨hlength, hdepth⟩ := isSmall_of_mem_twoCases hl
    rcases hlarge with hlarge | ⟨d, hd, hlarge⟩
    · omega
    · obtain rfl := hdepth d hd
      omega

end Metrics

end GrammarSuite
