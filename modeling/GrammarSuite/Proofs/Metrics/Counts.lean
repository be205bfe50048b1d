import GrammarSuite.Metrics.Basic
import GrammarSuite.Proofs.Case.Labelling
import GrammarSuite.Proofs.Decimal.Nearest

/-!
# Figures of labelled cases

The figures of cases that were labelled from derivations, mutations and extreme strings can be
taken, unless a number in their metadata is so large that an average is no double. The counts among
them are those of the cases.

## Main definitions

* `TestCase.IsCounted`: the entries that figures are taken from are what they should be
* `TestCase.Exceeds`: one of the numbers of a case is near the greatest double or beyond it
* `Metrics.IsFigure`: a figure has a property, unless an average is no double
* `Metrics.Counts`: the counts of a list of cases

## Main results

* `Subject.case_isCounted`: labelled cases are counted
* `Metrics.ofCases_isFigure`: the figures of counted cases
-/

namespace GrammarSuite

open Json (Misuse Number Value)

/-! ## Counted cases -/

namespace TestCase

/-- The entries that are averaged. -/
def numberNames : List String := ["token_count", "depth", "total_operators"]

/-- The entries that cases are sorted by. -/
def kindNames : List String := ["mutation_kind", "extreme_kind"]

/-- An entry that figures are taken from is a number, a table of numbers or a text, by its name. -/
def IsCountedEntry (e : String × Value) : Prop :=
  (e.1 ∈ numberNames → ∃ n : Int, e.2 = .int n) ∧
    (e.1 = "operators" → ∃ fields, e.2 = .object fields ∧ ∀ f ∈ fields, ∃ n : Int, f.2 = .int n) ∧
    (e.1 ∈ kindNames → ∃ s, e.2 = .text s)

/-- The entries of a case that figures are taken from are what they should be. -/
def IsCounted (c : TestCase) : Prop :=
  ∀ name v, c.metadata.get? name = some v → IsCountedEntry (name, v)

/-- A number of a case is at least a power of two near the greatest double. -/
def Exceeds (c : TestCase) : Prop :=
  ∃ name ∈ numberNames, ∃ n : Int, c.metadata.get? name = some (.int n) ∧
    Decimal.finiteBound ≤ n.natAbs

end TestCase

theorem isCountedEntry_of_mem_stringMetadata {spelling content : String} :
    ∀ e ∈ stringMetadata spelling content, TestCase.IsCountedEntry e := by
  simp only [stringMetadata, List.forall_mem_cons]
  refine ⟨?_, ?_, ?_, ?_, ?_, ⟨by simp [TestCase.numberNames], fun _ => ⟨_, rfl, ?_⟩,
    by simp [TestCase.kindNames]⟩, ?_, ?_, by simp⟩
  case refine_6 => exact List.forall_mem_map.2 fun _ _ => ⟨_, rfl⟩
  all_goals simp [TestCase.IsCountedEntry, TestCase.numberNames, TestCase.kindNames]

/-- A case whose entries were all added is counted if these are what they should be. -/
theorem TestCase.isCounted_annotateAll {c : TestCase} {entries : List (String × Value)}
    (hc : c.metadata = []) (h : ∀ e ∈ entries, IsCountedEntry e) :
    (c.annotateAll entries).IsCounted :=
  fun _ _ hentry => h _ (mem_of_get?_annotateAll hc hentry)

namespace Subject

variable {s : Subject} {spelling : String} {created : Instant} {n : Nat}

theorem isCountedEntry_of_mem_allEntries (h : ∀ e ∈ s.entries, TestCase.IsCountedEntry e) :
    ∀ e ∈ s.allEntries spelling, TestCase.IsCountedEntry e := by
  intro e he
  rcases List.mem_append.1 he with hmem | hmem
  · exact h e hmem
  · exact isCountedEntry_of_mem_stringMetadata e hmem

/-- **A case is counted** if the entries of its category are what they should be. -/
theorem case_isCounted (h : ∀ e ∈ s.entries, TestCase.IsCountedEntry e) :
    (s.case spelling created n).IsCounted :=
  TestCase.isCounted_annotateAll rfl (isCountedEntry_of_mem_allEntries h)

theorem isCountedEntry_of_mem_ofDerivation (d : Derivation) (description : Value) :
    ∀ e ∈ (ofDerivation d description).entries, TestCase.IsCountedEntry e := by
  simp [ofDerivation, valid, TestCase.IsCountedEntry, TestCase.numberNames, TestCase.kindNames]

theorem isCountedEntry_of_mem_ofMutation (m : Mutation) :
    ∀ e ∈ (ofMutation m).entries, TestCase.IsCountedEntry e := by
  simp [ofMutation, invalid, TestCase.IsCountedEntry, TestCase.numberNames, TestCase.kindNames]

theorem isCountedEntry_of_mem_ofExtreme {x : Extreme} (h : x.IsMeasured) :
    ∀ e ∈ (ofExtreme x).entries, TestCase.IsCountedEntry e := by
  simp [ofExtreme, Extreme.measures, Measure.name, h .depth, TestCase.IsCountedEntry,
    TestCase.numberNames, TestCase.kindNames]

theorem ofDerivation_isCounted (d : Derivation) :
    ((ofDerivation d).case spelling created n).IsCounted :=
  case_isCounted (isCountedEntry_of_mem_ofDerivation d validDescription)

theorem ofMutation_isCounted (m : Mutation) :
    ((ofMutation m).case spelling created n).IsCounted :=
  case_isCounted (isCountedEntry_of_mem_ofMutation m)

theorem ofExtreme_isCounted {x : Extreme} (h : x.IsMeasured) :
    ((ofExtreme x).case spelling created n).IsCounted :=
  case_isCounted (isCountedEntry_of_mem_ofExtreme h)

end Subject

namespace Metrics

variable {α β : Type} {E : Prop} {P : α → Prop} {Q : β → Prop}

/-! ## Figures -/

/-- A figure has a property, or an average is no double, which happens only on a condition. -/
def IsFigure (E : Prop) (P : α → Prop) : Except Misuse α → Prop
  | .ok a => P a
  | .error m => m = .quotientBeyondDoubles ∧ E

theorem IsFigure.bind {x : Except Misuse α} {f : α → Except Misuse β} (hx : IsFigure E P x)
    (hf : ∀ a, P a → IsFigure E Q (f a)) : IsFigure E Q (x >>= f) := by
  cases x with
  | ok a => exact hf a hx
  | error m => exact hx

theorem IsFigure.mono {F : Prop} {P' : α → Prop} {x : Except Misuse α} (hx : IsFigure E P x)
    (hE : E → F) (hP : ∀ a, P a → P' a) : IsFigure F P' x := by
  cases x with
  | ok a => exact hP a hx
  | error m => exact ⟨hx.1, hE hx.2⟩

/-- What goes wrong with a figure is an average that is no double. -/
theorem IsFigure.of_error {x : Except Misuse α} {f : Failure} (hx : IsFigure E P x)
    (h : x.mapError .misuse = .error f) : f = .misuse .quotientBeyondDoubles ∧ E := by
  cases x with
  | ok a => cases h
  | error m =>
    obtain ⟨rfl, hE⟩ := hx
    exact ⟨(Except.error.inj h).symm, hE⟩

/-- A figure that is taken from one item after the other keeps a property that each item keeps. -/
theorem IsFigure.foldlM {items : List β} {f : α → β → Except Misuse α} {start : α}
    (hstart : P start) (hf : ∀ a, P a → ∀ b ∈ items, IsFigure E P (f a b)) :
    IsFigure E P (items.foldlM f start) := by
  induction items generalizing start with
  | nil => exact hstart
  | cons b items ih =>
    rw [List.foldlM_cons]
    refine (hf start hstart b List.mem_cons_self).bind fun a ha => ih ha fun a ha b hb => ?_
    exact hf a ha b (List.mem_cons_of_mem _ hb)

/-- The values of a list are whole numbers. -/
def AreWhole (vs : List Value) : Prop := ∀ v ∈ vs, ∃ n : Int, v = .int n

/-- A whole number of a list is too large. -/
def HasLarge (vs : List Value) : Prop :=
  ∃ n : Int, .int n ∈ vs ∧ Decimal.finiteBound ≤ n.natAbs

/-- Whole numbers have a sum, which is bounded by the number of them and the greatest. -/
theorem sumOf_eq_ok {vs : List Value} (h : AreWhole vs) :
    ∃ n : Int, sumOf vs = .ok (.whole n) ∧
      ∀ bound, (∀ k : Int, .int k ∈ vs → k.natAbs ≤ bound) → n.natAbs ≤ vs.length * bound := by
  induction vs using List.reverseRecOn with
  | nil => exact ⟨0, rfl, fun _ _ => by simp⟩
  | append_singleton vs v ih =>
    obtain ⟨total, htotal, hbound⟩ := ih fun v hv => h v (List.mem_append_left _ hv)
    obtain ⟨n, rfl⟩ := h v (List.mem_append_right _ List.mem_cons_self)
    rw [sumOf] at htotal
    refine ⟨total + n, by rw [sumOf, List.foldlM_append, htotal]; rfl, fun bound hall => ?_⟩
    have hbefore := hbound bound fun k hk => hall k (List.mem_append_left _ hk)
    have hlast := hall n (List.mem_append_right _ List.mem_cons_self)
    have hsum := Int.natAbs_add_le total n
    rw [List.length_append, List.length_singleton, Nat.add_mul, Nat.one_mul]
    omega

/-- The average of whole numbers that are not too large is a double. -/
theorem averageOf_isFigure {vs : List Value} (h : AreWhole vs) :
    IsFigure (HasLarge vs) (fun _ => True) (averageOf vs) := by
  obtain ⟨total, htotal, hbound⟩ := sumOf_eq_ok h
  have haverage : averageOf vs = average (.whole total) vs.length := by rw [averageOf, htotal]; rfl
  rw [haverage, average]
  split
  · trivial
  · rename_i hlength
    dsimp only
    split
    · rename_i hinfinite
      refine ⟨rfl, by_contra fun hsmall => ?_⟩
      refine Decimal.nearest_ne_infinite ?_ hinfinite
      -- If no number is too large, neither is the sum for its number of parts.
      have hpos := Decimal.finiteBound_pos
      have hle := hbound (Decimal.finiteBound - 1) fun k hk => by
        by_contra hlarge
        exact hsmall ⟨k, hk, by omega⟩
      calc total.natAbs ≤ vs.length * (Decimal.finiteBound - 1) := hle
        _ < vs.length * Decimal.finiteBound :=
          Nat.mul_lt_mul_of_pos_left (Nat.sub_one_lt hpos.ne') (Nat.pos_of_ne_zero hlength)
    · trivial

/-- The greatest and the least of whole numbers are found by comparing them one after the other. -/
theorem foldlM_isFigure {f : Value → Value → Except Misuse Value} {v : Value} {vs : List Value}
    (hf : ∀ a b : Int, f (.int a) (.int b) = .ok (.int a) ∨ f (.int a) (.int b) = .ok (.int b))
    (h : AreWhole (v :: vs)) : IsFigure E (fun _ => True) (vs.foldlM f v) := by
  obtain ⟨hv, hvs⟩ := List.forall_mem_cons.1 h
  have hfold : IsFigure E (fun v => ∃ n : Int, v = .int n) (vs.foldlM f v) := by
    refine IsFigure.foldlM hv ?_
    rintro _ ⟨a, rfl⟩ w hw
    obtain ⟨b, rfl⟩ := hvs w hw
    rcases hf a b with hfirst | hsecond
    · rw [hfirst]
      exact ⟨a, rfl⟩
    · rw [hsecond]
      exact ⟨b, rfl⟩
  exact hfold.mono id fun _ _ => trivial

/-- Two whole numbers have an order. -/
theorem holds_int (r : Json.Relation) (a b : Int) : ∃ p, Value.holds r (.int a) (.int b) = .ok p :=
  ⟨_, rfl⟩

theorem greatest_isFigure {vs : List Value} (h : AreWhole vs) :
    IsFigure E (fun _ => True) (greatest vs) := by
  cases vs with
  | nil => trivial
  | cons v vs =>
    refine foldlM_isFigure (fun a b => ?_) h
    obtain ⟨p, hp⟩ := holds_int .greater b a
    rw [greater, Value.exceeds, hp]
    cases p with
    | true => exact .inr rfl
    | false => exact .inl rfl

theorem least_isFigure {vs : List Value} (h : AreWhole vs) :
    IsFigure E (fun _ => True) (least vs) := by
  cases vs with
  | nil => trivial
  | cons v vs =>
    refine foldlM_isFigure (fun a b => ?_) h
    obtain ⟨p, hp⟩ := holds_int .less b a
    rw [smaller, Value.less, hp]
    cases p with
    | true => exact .inr rfl
    | false => exact .inl rfl

/-! ## Tables -/

/-- The numbers of a table are whole. -/
def IsWholeTable (table : Table String Number) : Prop := ∀ e ∈ table, ∃ n : Int, e.2 = .whole n

theorem isWholeTable_insert {table : Table String Number} {op : String} {n : Int}
    (h : IsWholeTable table) : IsWholeTable (table.insert op (.whole n)) := by
  induction table with
  | nil =>
    rintro e he
    obtain rfl := List.mem_singleton.1 he
    exact ⟨n, rfl⟩
  | cons entry rest ih =>
    obtain ⟨hentry, hrest⟩ := List.forall_mem_cons.1 h
    rw [Table.insert_cons]
    split
    · exact List.forall_mem_cons.2 ⟨⟨n, rfl⟩, hrest⟩
    · exact List.forall_mem_cons.2 ⟨hentry, ih hrest⟩

theorem whole_of_get? {table : Table String Number} {op : String} {number : Number}
    (h : IsWholeTable table) (hget : table.get? op = some number) :
    ∃ n : Int, number = .whole n := by
  induction table with
  | nil => cases hget
  | cons entry rest ih =>
    obtain ⟨hentry, hrest⟩ := List.forall_mem_cons.1 h
    rw [Table.get?_cons] at hget
    split at hget
    · obtain rfl := Option.some.inj hget
      exact hentry
    · exact ih hrest hget

theorem addOperator_isFigure {table : Table String Number} {op : String} {n : Int}
    (h : IsWholeTable table) : IsFigure E IsWholeTable (addOperator table op (.int n)) := by
  rw [addOperator]
  rcases hget : table.get? op with _ | number
  · exact h
  · obtain ⟨k, rfl⟩ := whole_of_get? h hget
    exact isWholeTable_insert h

/-- The operators of counted cases are whole numbers. -/
theorem countOperators_isFigure {cases : List TestCase} {table : Table String Number}
    (hcases : ∀ c ∈ cases, c.IsCounted) (h : IsWholeTable table) :
    IsFigure E IsWholeTable (countOperators table cases) := by
  induction cases generalizing table with
  | nil => exact h
  | cons c rest ih =>
    obtain ⟨hc, hrest⟩ := List.forall_mem_cons.1 hcases
    rw [countOperators]
    rcases hget : c.metadata.get? "operators" with _ | v
    · exact ih hrest h
    · obtain ⟨fields, rfl, hfields⟩ := (hc _ _ hget).2.1 rfl
      refine IsFigure.bind (IsFigure.foldlM h fun table htable f hf => ?_) fun _ => ih hrest
      obtain ⟨n, hn⟩ := hfields f hf
      dsimp only
      rw [hn]
      exact addOperator_isFigure htable

theorem areWhole_totals {table : Table String Number} (h : IsWholeTable table) :
    AreWhole (table.map fun (_, n) => n.toValue) := by
  intro v hv
  obtain ⟨e, he, rfl⟩ := List.mem_map.1 hv
  obtain ⟨n, hn⟩ := h e he
  exact ⟨n, congrArg Number.toValue hn⟩

theorem countKinds_isFigure {name : String} (hname : name ∈ TestCase.kindNames)
    {cases : List TestCase} {table : Table String Nat} (hcases : ∀ c ∈ cases, c.IsCounted) :
    IsFigure E (fun _ => True) (countKinds name table cases) := by
  induction cases generalizing table with
  | nil => trivial
  | cons c rest ih =>
    obtain ⟨hc, hrest⟩ := List.forall_mem_cons.1 hcases
    rw [countKinds]
    rcases hget : c.metadata.get? name with _ | v
    · exact ih hrest
    · obtain ⟨s, rfl⟩ := (hc _ _ hget).2.2 hname
      exact ih hrest

/-! ## Cases -/

variable {cases : List TestCase} {name : String}

theorem areWhole_entries (hcases : ∀ c ∈ cases, c.IsCounted) (hname : name ∈ TestCase.numberNames) :
    AreWhole (entries name cases) := by
  intro v hv
  obtain ⟨c, hc, hget⟩ := List.mem_filterMap.1 hv
  exact (hcases c hc _ _ hget).1 hname

theorem areWhole_getD (hcases : ∀ c ∈ cases, c.IsCounted) (hname : name ∈ TestCase.numberNames) :
    AreWhole (cases.map fun c => (c.metadata.get? name).getD (.int 0)) := by
  intro v hv
  obtain ⟨c, hc, rfl⟩ := List.mem_map.1 hv
  rcases hget : c.metadata.get? name with _ | v
  · exact ⟨0, rfl⟩
  · exact (hcases c hc _ _ hget).1 hname

theorem exceeds_of_hasLarge_entries (hname : name ∈ TestCase.numberNames)
    (h : HasLarge (entries name cases)) : ∃ c ∈ cases, c.Exceeds := by
  obtain ⟨n, hn, hlarge⟩ := h
  obtain ⟨c, hc, hget⟩ := List.mem_filterMap.1 hn
  exact ⟨c, hc, name, hname, n, hget, hlarge⟩

theorem exceeds_of_hasLarge_getD (hname : name ∈ TestCase.numberNames)
    (h : HasLarge (cases.map fun c => (c.metadata.get? name).getD (.int 0))) :
    ∃ c ∈ cases, c.Exceeds := by
  obtain ⟨n, hn, hlarge⟩ := h
  obtain ⟨c, hc, hget⟩ := List.mem_map.1 hn
  refine ⟨c, hc, name, hname, n, ?_, hlarge⟩
  rcases hvalue : c.metadata.get? name with _ | v
  · -- An entry that is missing counts as zero, which is not large.
    rw [hvalue] at hget
    obtain rfl : 0 = n := Value.int.inj hget
    exact absurd hlarge (Nat.not_le.2 Decimal.finiteBound_pos)
  · rw [hvalue] at hget
    exact congrArg some hget

theorem averageOf_entries_isFigure (hcases : ∀ c ∈ cases, c.IsCounted)
    (hname : name ∈ TestCase.numberNames) :
    IsFigure (∃ c ∈ cases, c.Exceeds) (fun _ => True) (averageOf (entries name cases)) :=
  (averageOf_isFigure (areWhole_entries hcases hname)).mono (exceeds_of_hasLarge_entries hname)
    fun _ => id

theorem averageOf_getD_isFigure (hcases : ∀ c ∈ cases, c.IsCounted)
    (hname : name ∈ TestCase.numberNames) :
    IsFigure (∃ c ∈ cases, c.Exceeds) (fun _ => True)
      (averageOf (cases.map fun c => (c.metadata.get? name).getD (.int 0))) :=
  (averageOf_isFigure (areWhole_getD hcases hname)).mono (exceeds_of_hasLarge_getD hname)
    fun _ => id

theorem categoryFigures_isFigure (hcases : ∀ c ∈ cases, c.IsCounted) :
    IsFigure (∃ c ∈ cases, c.Exceeds) (fun _ => True) (categoryFigures cases) := by
  refine (averageOf_getD_isFigure hcases (by decide)).bind fun _ _ => ?_
  refine (greatest_isFigure (areWhole_getD hcases (by decide))).bind fun _ _ => ?_
  exact (averageOf_getD_isFigure hcases (by decide)).bind fun _ _ => trivial

theorem figuresOfEach_isFigure (hcases : ∀ c ∈ cases, c.IsCounted) (categories : List Category) :
    IsFigure (∃ c ∈ cases, c.Exceeds) (fun _ => True) (figuresOfEach cases categories) := by
  induction categories with
  | nil => trivial
  | cons category rest ih =>
    have hown := @categoryFigures_isFigure (cases.filter (·.category = category))
      fun c hc => hcases c (List.mem_of_mem_filter hc)
    refine IsFigure.bind (hown.mono ?_ fun _ => id) fun _ _ => ih.bind fun _ _ => trivial
    rintro ⟨c, hc, hexceeds⟩
    exact ⟨c, List.mem_of_mem_filter hc, hexceeds⟩

/-- The counts of a list of cases. -/
structure Counts (cases : List TestCase) (m : Metrics) : Prop where
  total : m.totalCases = cases.length
  valid : m.validCases = cases.countP (·.category = .valid)
  invalid : m.invalidCases = cases.countP (·.category = .invalid)
  extreme : m.extremeCases = cases.countP (·.category = .extreme)

/-- **Counted cases have figures, with their counts**, unless one of them exceeds the doubles. -/
theorem ofCases_isFigure (hcases : ∀ c ∈ cases, c.IsCounted) (elapsed : Float) :
    IsFigure (∃ c ∈ cases, c.Exceeds) (Counts cases) (ofCases cases elapsed) := by
  rw [ofCases]
  split
  · rename_i hempty
    obtain rfl := List.isEmpty_iff.1 hempty
    exact ⟨rfl, rfl, rfl, rfl⟩
  · have hfilter : ∀ category, ∀ c ∈ cases.filter (·.category = category), c.IsCounted :=
      fun category c hc => hcases c (List.mem_of_mem_filter hc)
    have hlengths : AreWhole (entries "token_count" cases) := areWhole_entries hcases (by decide)
    have hdepths : AreWhole (entries "depth" cases) := areWhole_entries hcases (by decide)
    have hoperators : IsWholeTable (Token.operators.map fun op => (op, .whole 0)) := by
      intro e he
      obtain ⟨op, -, rfl⟩ := List.mem_map.1 he
      exact ⟨0, rfl⟩
    refine (averageOf_entries_isFigure hcases (by decide)).bind fun _ _ => ?_
    refine (least_isFigure hlengths).bind fun _ _ => ?_
    refine (greatest_isFigure hlengths).bind fun _ _ => ?_
    refine (greatest_isFigure hdepths).bind fun _ _ => ?_
    refine (averageOf_entries_isFigure hcases (by decide)).bind fun _ _ => ?_
    refine (countOperators_isFigure hcases hoperators).bind fun table htable => ?_
    obtain ⟨total, htotal, -⟩ := sumOf_eq_ok (areWhole_totals htable)
    rw [htotal]
    refine (countKinds_isFigure (by decide) (hfilter .invalid)).bind fun _ _ => ?_
    refine (countKinds_isFigure (by decide) (hfilter .extreme)).bind fun _ _ => ?_
    exact (figuresOfEach_isFigure hcases Category.all).bind fun _ _ => ⟨rfl, rfl, rfl, rfl⟩

end Metrics

end GrammarSuite
