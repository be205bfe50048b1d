import GrammarSuite.Proofs.Metrics.Entries
import Mathlib.Algebra.BigOperators.Group.List.Lemmas
import Mathlib.Algebra.BigOperators.Ring.Finset
import Mathlib.Order.Bounds.Defs

/-!
# The figures of labelled cases as an account

The figures of cases that a session made are an account of these cases: every case is counted in its
category and under its kind, every operator under its spelling, and the least and the greatest
figures are those of some case. Such cases have figures, unless one of them has so many tokens, or
such a depth, that an average is no double.

## Main definitions

* `Metrics.Parts`: what the figures of a list of cases are computed from
* `Metrics.Account`: the figures of labelled cases are an account of them

## Main results

* `Metrics.countOperators_eq`, `Metrics.countKinds_eq`: the operators and the kinds of labelled
  cases
* `Metrics.account_of_labelled`: labelled cases have an account
-/

namespace GrammarSuite

open GrammarSuite.Action

open Json (Misuse Number Value)

/-! ## Names of kinds -/

/-- A kind is known by its name. -/
theorem MutationKind.ofName?_name (kind : MutationKind) : ofName? kind.name = some kind := by
  cases kind <;> rfl

theorem ExtremeKind.ofName?_name (kind : ExtremeKind) : ofName? kind.name = some kind := by
  cases kind <;> rfl

theorem MutationKind.name_injective : Function.Injective name := by
  intro a b h
  apply Option.some.inj
  rw [← a.ofName?_name, h, b.ofName?_name]

theorem ExtremeKind.name_injective : Function.Injective name := by
  intro a b h
  apply Option.some.inj
  rw [← a.ofName?_name, h, b.ofName?_name]

/-! ## Tables that are given by their keys -/

namespace Table

variable {κ α : Type} [DecidableEq κ] {keys : List κ} {f : κ → α} {k : κ}

theorem get?_map_of_mem (h : k ∈ keys) :
    Table.get? k (keys.map fun k => (k, f k)) = some (f k) := by
  induction keys with
  | nil => cases h
  | cons k' rest ih =>
    rw [List.map_cons, Table.get?_cons]
    by_cases hk : k' = k
    · rw [if_pos hk, hk]
    · rw [if_neg hk]
      exact ih ((List.mem_cons.1 h).resolve_left (Ne.symm hk))

/-- A write to a key that is present changes the value of this key alone. -/
theorem insert_map_of_mem (hkeys : keys.Nodup) (h : k ∈ keys) (v : α) :
    Table.insert k v (keys.map fun k => (k, f k)) =
      keys.map fun k' => (k', Function.update f k v k') := by
  induction keys with
  | nil => cases h
  | cons k' rest ih =>
    obtain ⟨hnew, hrest⟩ := List.nodup_cons.1 hkeys
    rw [List.map_cons, Table.insert, List.map_cons]
    by_cases hk : k' = k
    · subst hk
      rw [if_pos rfl, Function.update_self]
      congr 1
      refine List.map_congr_left fun k hmem => ?_
      rw [Function.update_of_ne (ne_of_mem_of_not_mem hmem hnew)]
    · rw [if_neg hk, Function.update_of_ne hk,
        ih hrest ((List.mem_cons.1 h).resolve_left (Ne.symm hk))]

end Table

namespace Metrics

/-! ## Parts -/

/-- What the figures of a list of cases are computed from. -/
structure Parts (cases : List TestCase) (m : Metrics) : Prop where
  counts : Counts cases m
  minLength : least (entries "token_count" cases) = .ok m.minLength
  maxLength : greatest (entries "token_count" cases) = .ok m.maxLength
  maxDepth : greatest (entries "depth" cases) = .ok m.maxDepth
  operators : countOperators (Token.operators.map fun op => (op, .whole 0)) cases = .ok m.operators
  totalOperators : sumOf (m.operators.map fun (_, n) => n.toValue) = .ok m.totalOperators
  mutations : countKinds "mutation_kind" (MutationKind.all.map fun kind => (kind.name, 0))
    (cases.filter (·.category = .invalid)) = .ok m.mutations
  extremes : countKinds "extreme_kind" (ExtremeKind.all.map fun kind => (kind.name, 0))
    (cases.filter (·.category = .extreme)) = .ok m.extremes
  categories : figuresOfEach cases Category.all = .ok m.categories

/-- Figures are computed from their parts, and the average depth from the depths. -/
theorem parts_of_ofCases {cases : List TestCase} {elapsed : Float} {m : Metrics}
    (hne : cases ≠ []) (h : ofCases cases elapsed = .ok m) :
    Parts cases m ∧ averageOf (entries "depth" cases) = .ok m.averageDepth := by
  rw [ofCases, if_neg (by simpa using hne)] at h
  obtain ⟨averageLength, -, h⟩ := bind_eq_ok_iff.1 h
  obtain ⟨minLength, hmin, h⟩ := bind_eq_ok_iff.1 h
  obtain ⟨maxLength, hmax, h⟩ := bind_eq_ok_iff.1 h
  obtain ⟨maxDepth, hdepth, h⟩ := bind_eq_ok_iff.1 h
  obtain ⟨averageDepth, haverage, h⟩ := bind_eq_ok_iff.1 h
  obtain ⟨operators, hoperators, h⟩ := bind_eq_ok_iff.1 h
  obtain ⟨total, htotal, h⟩ := bind_eq_ok_iff.1 h
  obtain ⟨mutations, hmutations, h⟩ := bind_eq_ok_iff.1 h
  obtain ⟨extremes, hextremes, h⟩ := bind_eq_ok_iff.1 h
  obtain ⟨categories, hcategories, h⟩ := bind_eq_ok_iff.1 h
  obtain rfl := Except.ok.inj h
  exact ⟨⟨⟨rfl, rfl, rfl, rfl⟩, hmin, hmax, hdepth, hoperators, htotal, hmutations, hextremes,
    hcategories⟩, haverage⟩

/-- The greatest and the average depth are those of the entries, also if there are no cases. -/
theorem depths_of_ofCases {cases : List TestCase} {elapsed : Float} {m : Metrics}
    (h : ofCases cases elapsed = .ok m) : greatest (entries "depth" cases) = .ok m.maxDepth ∧
      averageOf (entries "depth" cases) = .ok m.averageDepth := by
  by_cases hne : cases = []
  · subst hne
    obtain rfl := Except.ok.inj h
    exact ⟨rfl, rfl⟩
  · obtain ⟨hparts, haverage⟩ := parts_of_ofCases hne h
    exact ⟨hparts.maxDepth, haverage⟩

/-! ## Sums, least and greatest numbers -/

/-- The sum of whole numbers is exact. -/
theorem sumOf_int (ns : List Int) : sumOf (ns.map .int) = .ok (.whole ns.sum) := by
  induction ns using List.reverseRecOn with
  | nil => rfl
  | append_singleton ns n ih =>
    rw [sumOf] at ih
    rw [sumOf, List.map_append, List.foldlM_append, ih, List.sum_append, List.sum_singleton]
    rfl

/-- A search that keeps one of two numbers finds one that is related to all others. -/
theorem foldlM_int {r : Int → Int → Prop} {f : Value → Value → Except Misuse Value}
    (hrefl : ∀ a, r a a) (htrans : ∀ a b c, r a b → r b c → r a c)
    (hf : ∀ a b, ∃ c, f (.int a) (.int b) = .ok (.int c) ∧ (c = a ∨ c = b) ∧ r c a ∧ r c b)
    (a : Int) (ns : List Int) : ∃ n, (ns.map Value.int).foldlM f (.int a) = .ok (.int n) ∧
      n ∈ a :: ns ∧ ∀ k ∈ a :: ns, r n k := by
  induction ns generalizing a with
  | nil => exact ⟨a, rfl, List.mem_singleton_self a, by simpa using hrefl a⟩
  | cons b rest ih =>
    obtain ⟨c, hc, hmem, hca, hcb⟩ := hf a b
    obtain ⟨n, hn, hnmem, hall⟩ := ih c
    have hnc := hall c List.mem_cons_self
    refine ⟨n, by rw [List.map_cons, List.foldlM_cons, hc]; exact hn, ?_, ?_⟩
    · rcases List.mem_cons.1 hnmem with rfl | hrest
      · rcases hmem with rfl | rfl <;> simp
      · simp [hrest]
    · simp only [List.forall_mem_cons]
      refine ⟨htrans _ _ _ hnc hca, htrans _ _ _ hnc hcb, fun k hk => ?_⟩
      exact hall k (List.mem_cons_of_mem _ hk)

theorem smaller_int (a b : Int) : smaller (.int a) (.int b) = .ok (.int (min a b)) := by
  have hless : Value.less (.int b) (.int a) = .ok (decide (b < a)) := rfl
  rw [smaller, hless]
  by_cases h : b < a
  · rw [Int.min_eq_right (by omega), decide_eq_true h]
    rfl
  · rw [Int.min_eq_left (by omega), decide_eq_false h]
    rfl

theorem greater_int (a b : Int) : greater (.int a) (.int b) = .ok (.int (max a b)) := by
  have hexceeds : Value.exceeds (.int b) (.int a) = .ok (decide (a < b)) := rfl
  rw [greater, hexceeds]
  by_cases h : a < b
  · rw [Int.max_eq_right (by omega), decide_eq_true h]
    rfl
  · rw [Int.max_eq_left (by omega), decide_eq_false h]
    rfl

theorem least_int {ns : List Int} (hne : ns ≠ []) :
    ∃ n, least (ns.map .int) = .ok (.int n) ∧ IsLeast { k | k ∈ ns } n := by
  obtain ⟨a, rest, rfl⟩ := List.exists_cons_of_ne_nil hne
  exact foldlM_int (r := (· ≤ ·)) Int.le_refl (fun _ _ _ => Int.le_trans)
    (fun a b => ⟨min a b, smaller_int a b, by omega, by omega, by omega⟩) a rest

theorem greatest_int {ns : List Int} (hne : ns ≠ []) :
    ∃ n, greatest (ns.map .int) = .ok (.int n) ∧ IsGreatest { k | k ∈ ns } n := by
  obtain ⟨a, rest, rfl⟩ := List.exists_cons_of_ne_nil hne
  exact foldlM_int (r := (· ≥ ·)) Int.le_refl (fun _ _ _ h h' => Int.le_trans h' h)
    (fun a b => ⟨max a b, greater_int a b, by omega, by omega, by omega⟩) a rest

/-! ## Operators -/

/-- The counts of some operators are added to the numbers of these in a table. -/
theorem foldlM_addOperator {keys : List String} (hkeys : keys.Nodup) (f g : String → Int)
    {ops : List String} (hops : ops.Nodup) (hsub : ∀ op ∈ ops, op ∈ keys) :
    (ops.map fun op => (op, Value.int (g op))).foldlM (fun table (op, v) => addOperator table op v)
        (keys.map fun k => (k, .whole (f k))) =
      .ok (keys.map fun k => (k, .whole (if k ∈ ops then f k + g k else f k))) := by
  induction ops generalizing f with
  | nil => simp only [List.map_nil, List.foldlM_nil, List.not_mem_nil, if_false]; rfl
  | cons op rest ih =>
    obtain ⟨hnew, hrest⟩ := List.nodup_cons.1 hops
    obtain ⟨hop, hsub⟩ := List.forall_mem_cons.1 hsub
    -- The first operator is in the table, and its number alone changes.
    have hadd : addOperator (keys.map fun k => (k, .whole (f k))) op (.int (g op)) =
        .ok (keys.map fun k => (k, .whole (if k = op then f k + g k else f k))) := by
      rw [addOperator, Table.get?_map_of_mem hop]
      refine congrArg Except.ok ((Table.insert_map_of_mem hkeys hop _).trans ?_)
      refine List.map_congr_left fun k _ => ?_
      by_cases hk : k = op
      · rw [hk, Function.update_self, if_pos rfl]
      · rw [Function.update_of_ne hk, if_neg hk]
    rw [List.map_cons, List.foldlM_cons]
    dsimp only
    rw [hadd]
    refine (ih _ hrest hsub).trans (congrArg Except.ok (List.map_congr_left fun k _ => ?_))
    by_cases hk : k = op
    · subst hk
      simp [hnew]
    · simp [hk]

/-- **The operators of labelled cases** are those among the tokens of their contents. -/
theorem countOperators_eq (ls : List Labelled) (f : String → Int) :
    countOperators (Token.operators.map fun op => (op, .whole (f op))) (ls.map Labelled.case) =
      .ok (Token.operators.map fun op =>
        (op, .whole (f op + (ls.map fun l => l.tokens.count op).sum))) := by
  induction ls generalizing f with
  | nil => simp [countOperators]
  | cons l rest ih =>
    rw [List.map_cons, countOperators, l.get?_operators]
    dsimp only
    rw [foldlM_addOperator (by decide) f (fun op => l.tokens.count op) (by decide) fun _ => id]
    refine (ih _).trans (congrArg Except.ok (List.map_congr_left fun op hop => ?_))
    rw [if_pos hop, List.map_cons, List.sum_cons, Nat.cast_add, Int.add_assoc]

/-- The total over the operators is the total over the cases. -/
theorem sum_operators (ls : List Labelled) (ops : List String) :
    (ops.map fun op => (ls.map fun l => l.tokens.count op).sum).sum =
      (ls.map fun l => (ops.map l.tokens.count).sum).sum := by
  induction ls with
  | nil => simp
  | cons l rest ih => simp only [List.map_cons, List.sum_cons, List.sum_map_add, ih]

/-! ## Kinds -/

section

variable {κ : Type} [DecidableEq κ] {entry : String} {nameOf : κ → String}
  {kind : Labelled → Option κ}

theorem countEntry_map (hname : Function.Injective nameOf) (keys : List κ) (f : κ → Nat) (k : κ) :
    countEntry (keys.map fun k => (nameOf k, f k)) (nameOf k) =
      keys.map fun k' => (nameOf k', f k' + if k' = k then 1 else 0) := by
  rw [countEntry, List.map_map]
  refine List.map_congr_left fun k' _ => ?_
  by_cases h : k' = k
  · simp [h]
  · simp [h, hname.ne h]

/-- **The kinds of labelled cases** are counted by their names. -/
theorem countKinds_eq (hname : Function.Injective nameOf)
    (hkind : ∀ l k, kind l = some k → l.case.metadata.get? entry = some (.text (nameOf k)))
    {ls : List Labelled} (hls : ∀ l ∈ ls, (kind l).isSome = true) (keys : List κ) (f : κ → Nat) :
    countKinds entry (keys.map fun k => (nameOf k, f k)) (ls.map Labelled.case) =
      .ok (keys.map fun k => (nameOf k, f k + ls.countP (kind · = some k))) := by
  induction ls generalizing f with
  | nil => rfl
  | cons l rest ih =>
    obtain ⟨hl, hrest⟩ := List.forall_mem_cons.1 hls
    obtain ⟨k, hk⟩ := Option.isSome_iff_exists.1 hl
    rw [List.map_cons, countKinds, hkind l k hk]
    dsimp only [Option.getD_some]
    rw [countEntry_map hname, ih hrest]
    refine congrArg Except.ok (List.map_congr_left fun k' _ => ?_)
    rw [List.countP_cons, hk]
    by_cases h : k' = k
    · simp [h, Nat.add_assoc, Nat.add_comm]
    · simp [h, Ne.symm h]

/-- The cases of a category are those that have a kind. -/
theorem countKinds_filter (hname : Function.Injective nameOf)
    (hkind : ∀ l k, kind l = some k → l.case.metadata.get? entry = some (.text (nameOf k)))
    {category : Category} (hcategory : ∀ l, l.case.category = category ↔ (kind l).isSome = true)
    (keys : List κ) (ls : List Labelled) :
    countKinds entry (keys.map fun k => (nameOf k, 0))
        ((ls.map Labelled.case).filter (·.category = category)) =
      .ok (keys.map fun k => (nameOf k, ls.countP (kind · = some k))) := by
  have hfilter : ∀ l ∈ ls.filter (fun l => l.case.category = category), (kind l).isSome = true := by
    intro l hl
    exact (hcategory l).1 (by simpa using (List.mem_filter.1 hl).2)
  rw [List.filter_map]
  refine (countKinds_eq hname hkind hfilter keys fun _ => 0).trans ?_
  refine congrArg Except.ok (List.map_congr_left fun k _ => ?_)
  rw [Nat.zero_add, List.countP_filter]
  refine congrArg _ (List.countP_congr fun l _ => ?_)
  -- A case of this kind belongs to the category.
  have : kind l = some k → l.case.category = category := fun h => (hcategory l).2 (by simp [h])
  simpa using this

/-- Every case that has a kind is counted once. -/
theorem sum_countP {keys : List κ} (hkeys : keys.Nodup) (hall : ∀ k, k ∈ keys)
    (ls : List Labelled) : (keys.map fun k => ls.countP (kind · = some k)).sum =
      ls.countP fun l => (kind l).isSome := by
  induction ls with
  | nil => simp
  | cons l rest ih =>
    simp only [List.countP_cons, List.sum_map_add, ih]
    congr 1
    -- The first case is counted under its own kind, if it has one.
    rcases hk : kind l with _ | k
    · simp
    · rw [List.sum_map_eq_nsmul_single k]
      · simp [List.count_eq_one_of_mem hkeys (hall k)]
      · intro k' hne _
        simp [hne.symm]

/-- The numbers of all kinds add up to the number of cases of the category. -/
theorem sum_countP_category {category : Category}
    (hcategory : ∀ l, l.case.category = category ↔ (kind l).isSome = true) {keys : List κ}
    (hkeys : keys.Nodup) (hall : ∀ k, k ∈ keys) (ls : List Labelled) :
    (keys.map fun k => ls.countP (kind · = some k)).sum =
      (ls.map Labelled.case).countP (·.category = category) := by
  rw [sum_countP hkeys hall, List.countP_map]
  exact List.countP_congr fun l _ => by simp [hcategory l]

end

/-! ## Categories -/

theorem count_of_categoryFigures {cases : List TestCase} {figures : CategoryFigures}
    (h : categoryFigures cases = .ok figures) : figures.count = cases.length := by
  rw [categoryFigures] at h
  obtain ⟨averageTokens, -, h⟩ := bind_eq_ok_iff.1 h
  obtain ⟨maxTokens, -, h⟩ := bind_eq_ok_iff.1 h
  obtain ⟨averageOperators, -, h⟩ := bind_eq_ok_iff.1 h
  obtain rfl := Except.ok.inj h
  rfl

theorem count_of_figuresOfEach {cases : List TestCase} {categories : List Category}
    {table : Table String CategoryFigures} (h : figuresOfEach cases categories = .ok table) :
    table.map (fun e => (e.1, e.2.count)) =
      categories.map fun category => (category.name, cases.countP (·.category = category)) := by
  induction categories generalizing table with
  | nil =>
    obtain rfl := Except.ok.inj h
    rfl
  | cons category rest ih =>
    rw [figuresOfEach] at h
    obtain ⟨own, hown, h⟩ := bind_eq_ok_iff.1 h
    obtain ⟨others, hothers, h⟩ := bind_eq_ok_iff.1 h
    obtain rfl := Except.ok.inj h
    rw [List.map_cons, List.map_cons, ih hothers, count_of_categoryFigures hown,
      List.countP_eq_length_filter]

/-- Every case has one of the categories. -/
theorem length_eq_countP (cases : List TestCase) : cases.length =
    cases.countP (·.category = .valid) + cases.countP (·.category = .invalid) +
      cases.countP (·.category = .extreme) := by
  induction cases with
  | nil => rfl
  | cons c rest ih =>
    simp only [List.length_cons, List.countP_cons, ih]
    cases c.category <;> simp <;> omega

/-! ## The account -/

/-- The figures of labelled cases are an account of them. -/
structure Account (ls : List Labelled) (m : Metrics) : Prop where
  total : m.totalCases = ls.length
  split : m.totalCases = m.validCases + m.invalidCases + m.extremeCases
  byCategory : countByCategory (ls.map Labelled.case) =
    [(.valid, m.validCases), (.invalid, m.invalidCases), (.extreme, m.extremeCases)]
  categories : m.categories.map (fun e => (e.1, e.2.count)) =
    [("VALID", m.validCases), ("INVALID", m.invalidCases), ("EXTREME", m.extremeCases)]
  /-- Each kind of mutations has the number of its cases, and every invalid case has a kind. -/
  mutations : m.mutations = MutationKind.all.map fun kind =>
    (kind.name, ls.countP (·.origin.mutationKind? = some kind))
  allMutations : (m.mutations.map Prod.snd).sum = m.invalidCases
  extremes : m.extremes = ExtremeKind.all.map fun kind =>
    (kind.name, ls.countP (·.origin.extremeKind? = some kind))
  allExtremes : (m.extremes.map Prod.snd).sum = m.extremeCases
  /-- Each operator has the number of the tokens that are equal to it. -/
  operators : m.operators = Token.operators.map fun op =>
    (op, .whole ((ls.map fun l => l.tokens.count op).sum : Nat))
  allOperators : m.totalOperators =
    .whole ((Token.operators.map fun op => (ls.map fun l => l.tokens.count op).sum).sum : Nat)
  /-- The entries of the cases have the same total. -/
  totalOperators : ∃ ns : List Nat, m.totalOperators = .whole (ns.sum : Nat) ∧
    ls.map (·.case.metadata.get? "total_operators") = ns.map fun n => some (.int n)
  minLength : ∃ n, m.minLength = .int n ∧
    IsLeast { k | ∃ l ∈ ls, (l.tokens.length : Int) = k } n
  maxLength : ∃ n, m.maxLength = .int n ∧
    IsGreatest { k | ∃ l ∈ ls, (l.tokens.length : Int) = k } n
  /-- The depth is that of a valid or an extreme case, or zero if all cases are invalid. -/
  maxDepth : (∃ n, m.maxDepth = .int n ∧ IsGreatest { k | ∃ l ∈ ls, l.origin.depth? = some k } n) ∨
    ((∀ l ∈ ls, l.case.category = .invalid) ∧ m.maxDepth = .int 0)

variable {ls : List Labelled}

theorem entries_tokenCount (ls : List Labelled) : entries "token_count" (ls.map Labelled.case) =
    (ls.map fun l => (l.tokens.length : Int)).map .int := by
  rw [entries, List.filterMap_map, List.map_map, ← List.filterMap_eq_map]
  exact List.filterMap_congr fun l _ => l.get?_tokenCount

theorem entries_depth (ls : List Labelled) : entries "depth" (ls.map Labelled.case) =
    (ls.filterMap (·.origin.depth?)).map .int := by
  rw [entries, List.filterMap_map, List.map_filterMap]
  exact List.filterMap_congr fun l _ => l.get?_depth

/-- The total of the operators is that of the numbers of each. -/
theorem allOperators_of_parts {m : Metrics} (h : Parts (ls.map Labelled.case) m) :
    m.operators = (Token.operators.map fun op =>
        (op, .whole ((ls.map fun l => l.tokens.count op).sum : Nat))) ∧
      m.totalOperators = .whole
        ((Token.operators.map fun op => (ls.map fun l => l.tokens.count op).sum).sum : Nat) := by
  have hoperators := Except.ok.inj (h.operators.symm.trans (countOperators_eq ls fun _ => 0))
  simp only [Int.zero_add] at hoperators
  have htotal := h.totalOperators
  have hvalues : (m.operators.map fun (_, n) => n.toValue) = (Token.operators.map fun op =>
      (((ls.map fun l => l.tokens.count op).sum : Nat) : Int)).map .int := by
    rw [hoperators, List.map_map, List.map_map]
    rfl
  rw [hvalues, sumOf_int] at htotal
  refine ⟨hoperators, (Except.ok.inj htotal).symm.trans ?_⟩
  rw [Nat.cast_list_sum, List.map_map]
  rfl

/-- **Figures of labelled cases are an account of them.** -/
theorem account_of_parts (hne : ls ≠ []) {m : Metrics} (h : Parts (ls.map Labelled.case) m) :
    Account ls m := by
  obtain ⟨htotal, hvalid, hinvalid, hextreme⟩ := h.counts
  obtain ⟨hoperators, hallOperators⟩ := allOperators_of_parts h
  have hmutations := Except.ok.inj (h.mutations.symm.trans
    (countKinds_filter MutationKind.name_injective (fun _ _ => Labelled.get?_mutationKind)
      (fun l => l.isInvalid_iff) MutationKind.all ls))
  have hextremes := Except.ok.inj (h.extremes.symm.trans
    (countKinds_filter ExtremeKind.name_injective (fun _ _ => Labelled.get?_extremeKind)
      (fun l => l.isExtreme_iff) ExtremeKind.all ls))
  have hlengths : (ls.map fun l => (l.tokens.length : Int)) ≠ [] := by simpa using hne
  constructor
  case total => rw [htotal, List.length_map]
  case split =>
    rw [htotal, hvalid, hinvalid, hextreme]
    exact length_eq_countP _
  case byCategory =>
    rw [hvalid, hinvalid, hextreme]
    rfl
  case categories =>
    rw [count_of_figuresOfEach h.categories, hvalid, hinvalid, hextreme]
    rfl
  case mutations => exact hmutations
  case allMutations =>
    rw [hmutations, List.map_map, hinvalid]
    exact sum_countP_category (fun l => l.isInvalid_iff) (by decide) (fun kind => by cases kind <;> decide) ls
  case extremes => exact hextremes
  case allExtremes =>
    rw [hextremes, List.map_map, hextreme]
    exact sum_countP_category (fun l => l.isExtreme_iff) (by decide) (fun kind => by cases kind <;> decide) ls
  case operators => exact hoperators
  case allOperators => exact hallOperators
  case totalOperators =>
    refine ⟨ls.map fun l => (Token.operators.map l.tokens.count).sum, ?_, ?_⟩
    · rw [hallOperators, sum_operators]
    · rw [List.map_map]
      exact List.map_congr_left fun l _ => l.get?_totalOperators
  case minLength =>
    obtain ⟨n, hn, hleast⟩ := least_int hlengths
    have hmin := h.minLength
    rw [entries_tokenCount, hn] at hmin
    exact ⟨n, (Except.ok.inj hmin).symm, by simpa only [List.mem_map] using hleast⟩
  case maxLength =>
    obtain ⟨n, hn, hgreatest⟩ := greatest_int hlengths
    have hmax := h.maxLength
    rw [entries_tokenCount, hn] at hmax
    exact ⟨n, (Except.ok.inj hmax).symm, by simpa only [List.mem_map] using hgreatest⟩
  case maxDepth =>
    have hmax := h.maxDepth
    rw [entries_depth] at hmax
    -- No case has a depth only if all cases are invalid.
    by_cases hdepths : ls.filterMap (·.origin.depth?) = []
    · rw [hdepths] at hmax
      refine .inr ⟨fun l hl => ?_, (Except.ok.inj hmax).symm⟩
      exact Labelled.isInvalid_of_depth (List.filterMap_eq_nil_iff.1 hdepths l hl)
    · obtain ⟨n, hn, hgreatest⟩ := greatest_int hdepths
      rw [hn] at hmax
      exact .inl ⟨n, (Except.ok.inj hmax).symm, by simpa only [List.mem_filterMap] using hgreatest⟩

/-- **Labelled cases have an account**, unless one of them has so many tokens, or such a depth, that
an average is no double. -/
theorem account_of_labelled (hne : ls ≠ []) (elapsed : Float) :
    (∃ m, ofCases (ls.map Labelled.case) elapsed = .ok m ∧ Account ls m) ∨
      (ofCases (ls.map Labelled.case) elapsed = .error .quotientBeyondDoubles ∧
        ∃ l ∈ ls, l.IsLarge) := by
  have hcases : ∀ c ∈ ls.map Labelled.case, c.IsCounted := by
    intro c hc
    obtain ⟨l, -, rfl⟩ := List.mem_map.1 hc
    exact l.isCounted
  have hfigure := ofCases_isFigure hcases elapsed
  -- Only an average can fail.
  rcases hm : ofCases (ls.map Labelled.case) elapsed with misuse | m <;> rw [hm] at hfigure
  · obtain ⟨rfl, c, hc, hexceeds⟩ := hfigure
    obtain ⟨l, hl, rfl⟩ := List.mem_map.1 hc
    exact .inr ⟨rfl, l, hl, Labelled.isLarge_of_exceeds hexceeds⟩
  · exact .inl ⟨m, rfl, account_of_parts hne (parts_of_ofCases (by simpa using hne) hm).1⟩

/-- A valid case of a small sum, and an invalid one. -/
def twoCases : List Labelled :=
  let created : Instant :=
    { year := 2024, month := 1, day := 1, hour := 0, minute := 0, second := 0 }
  [(Origin.derivation ⟨"id + id", []⟩).first created,
    (Origin.mutation Ledger.loosePlus).first created]

theorem account_of_twoCases : twoCases ≠ [] ∧
    ∃ m, ofCases (twoCases.map Labelled.case) 0.0 = .ok m ∧ m.totalCases = 2 ∧
      m.mutations.get? "missing_operand" = some 1 ∧ m.totalOperators = .whole 2 := by
  have hne : twoCases ≠ [] := by simp [twoCases]
  have hbound : 3 < Decimal.finiteBound := by
    have hpow : ∀ n, 2 ≤ n → 3 < Decimal.twoPow n := fun n hn =>
      Nat.lt_of_lt_of_le (by decide) (Nat.pow_le_pow_right (n := 2) (by decide) hn)
    exact hpow _ (by decide)
  rcases account_of_labelled hne 0.0 with ⟨m, hm, haccount⟩ | ⟨-, l, hl, hlarge⟩
  · refine ⟨hne, m, hm, haccount.total, ?_, ?_⟩
    · rw [haccount.mutations]
      rfl
    · rw [haccount.allOperators]
      simp only [twoCases, List.map_cons, List.map_nil, Labelled.tokens_eq]
      rfl
  · -- Neither case has more than three tokens or a depth.
    have hsmall : l.tokens.length ≤ 3 ∧ ∀ n, l.origin.depth? = some n → n = 0 := by
      simp only [twoCases, List.mem_cons, List.not_mem_nil, or_false] at hl
      rcases hl with rfl | rfl <;> rw [Labelled.tokens_eq]
      · exact ⟨by decide, fun n hn => (Option.some.inj hn).symm⟩
      · exact ⟨by decide, fun n hn => nomatch hn⟩
    rcases hlarge with hlarge | ⟨n, hn, hlarge⟩
    · omega
    · obtain rfl := hsmall.2 n hn
      omega

end Metrics

end GrammarSuite
