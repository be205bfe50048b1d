import GrammarSuite.Proofs.Extreme.Best

/-!
# Extreme strings of all kinds

The searches of all kinds run one after the other on one source. Where every nonterminal has a
production they can be stopped by nothing: a search either finds a string, which is what it finds on
the source at that point, or reaches its bound, which gives nothing. So the strings of a kind stand
together, in the order of the kinds, and no kind has more of them than were asked for. Three kinds are
never passed over. The minimal derivation does not look at the source, so that all its searches end
alike.

## Main definitions

* `Finder.findAt`: a search on a source
* `Finder.findInTurn`: searches one after the other on one source
* `Finder.IsOutcome`: an outcome that a search of a kind can have
* `Extreme.IsCollection`: strings of all kinds, in order

## Main results

* `Finder.findEach_runOn`: what is found are the results of searches in turn
* `Finder.forall₂_findInTurn`: each outcome is one of its kind
* `Finder.findAll_collects`: strings of all kinds are a collection
-/

namespace GrammarSuite

open GrammarSuite.Action GrammarSuite.Random

open Json (Value)

/-- What the searches of all kinds collect, `k` for each kind, if a derivation takes at most `2 * B`
expansions. -/
structure Extreme.IsCollection (B k : Nat) (es : List Extreme) : Prop where
  /-- The kinds come in their order. -/
  inOrder : (es.map Extreme.kind).Sublist (Finder.repeated ExtremeKind.all k)
  /-- No kind has more strings than were asked for. -/
  atMost : ∀ kind, (es.filter (·.kind = kind)).length ≤ k
  /-- The kinds without a bound have all of them. -/
  sure : ∀ kind, kind.isSure = true → (es.filter (·.kind = kind)).length = k
  /-- The minimal derivation is there each time, or not at all. -/
  minimal : es.filter (·.kind = .minDepth) = [] ∨
    ∃ e, es.filter (·.kind = .minDepth) = List.replicate k e
  /-- The depth of a deepest string is the length of a trace within twice the bound. -/
  deepest : ∀ e ∈ es, e.kind = .maxDepth → ∃ n : Nat, e.depth = .int n ∧ 2 ≤ n ∧ n ≤ 2 * B + 1

namespace Finder

variable {σ : Type} [Source σ] {g : Grammar} {bound : Value} {kind : ExtremeKind}
  {kinds : List ExtremeKind} {f : Finder σ} {outcomes : List (Except Failure Extreme)}

/-! ## Searches in turn -/

/-- What a search of a kind gives on a source, and the source that it leaves. -/
def findAt (g : Grammar) (bound : Value) (kind : ExtremeKind) (s : σ) :
    Except Failure Extreme × σ :=
  let (outcome, f) := (find kind).runOn { grammar := g, depthBound := bound, source := s }
  (outcome, f.source)

/-- What searches of the kinds of a list give, each on the source that the one before it left, and the
source that the last one leaves. -/
def findInTurn (g : Grammar) (bound : Value) :
    List ExtremeKind → σ → List (Except Failure Extreme) × σ
  | [], s => ([], s)
  | kind :: kinds, s =>
    let (outcome, t) := findAt g bound kind s
    let (outcomes, u) := findInTurn g bound kinds t
    (outcome :: outcomes, u)

/-- What a finder has recorded makes no difference to what it finds. -/
theorem findAt_eq (kind : ExtremeKind) (f : Finder σ) :
    findAt f.grammar f.depthBound kind f.source =
      (((find kind).runOn f).1, ((find kind).runOn f).2.source) := by
  obtain ⟨hout, -, -, hsource⟩ := find_alike kind
    { grammar := f.grammar, depthBound := f.depthBound, source := f.source } f ⟨rfl, rfl, rfl⟩
  exact Prod.ext hout hsource

/-- Where every nonterminal has a production, a search that may be passed over gives the result of a
search on its source, if that has one. -/
theorem find?_runOn [LawfulSource σ] {D : Nat} (hD : 0 < D) (channel : String)
    (kind : ExtremeKind) (hbound : f.depthBound = .int D)
    (hproductions : ∀ s ∈ f.grammar.nonterminals, f.grammar.productionsFor s ≠ []) :
    ∃ f', (find? channel kind).runOn f =
        (.ok (findAt f.grammar f.depthBound kind f.source).1.toOption, f') ∧
      f'.source = (findAt f.grammar f.depthBound kind f.source).2 := by
  rw [findAt_eq]
  rcases hrun : (find kind).runOn f with ⟨e | x, f₁⟩
  · -- A search that failed has reached its bound, as there is no lack of productions.
    rcases find_failsOnly hD kind hbound e f₁ hrun with ⟨⟨d, rfl⟩, -⟩ | ⟨n, -, hdeclared, hlack⟩
    · exact ⟨_, find?_eq_ok_iff.2 (.inr ⟨d, f₁, hrun, rfl, rfl⟩), rfl⟩
    · exact absurd hlack (hproductions _ hdeclared)
  · exact ⟨f₁, find?_eq_ok_iff.2 (.inl ⟨x, hrun, rfl⟩), rfl⟩

/-- **What is found are the results of searches in turn**, where every nonterminal has a production:
a search that reached its bound leaves them as they are. -/
theorem findEach_runOn [LawfulSource σ] {D : Nat} (hD : 0 < D) (channel : String)
    (kinds : List ExtremeKind) (hbound : f.depthBound = .int D)
    (hproductions : ∀ s ∈ f.grammar.nonterminals, f.grammar.productionsFor s ≠ []) :
    ∃ f', (findEach channel kinds).runOn f =
        (.ok ((findInTurn f.grammar f.depthBound kinds f.source).1.filterMap Except.toOption), f') ∧
      f'.source = (findInTurn f.grammar f.depthBound kinds f.source).2 := by
  induction kinds generalizing f with
  | nil => exact ⟨f, rfl, rfl⟩
  | cons kind kinds ih =>
    obtain ⟨f₁, hrun, hsource⟩ := find?_runOn hD channel kind hbound hproductions
    -- The other searches have the same grammar and bound, and the source that the first one left.
    obtain ⟨hgrammar, hkept⟩ := depthBound_of_find? hrun
    obtain ⟨f₂, hrest, hlast⟩ := ih (hkept.trans hbound) (by rwa [hgrammar])
    rw [hgrammar, hkept, hsource] at hrest hlast
    refine ⟨f₂, findEach_cons_eq_ok_iff.2 ⟨_, f₁, _, hrun, hrest, ?_⟩, hlast⟩
    rw [findInTurn, List.filterMap_cons]
    cases (findAt f.grammar f.depthBound kind f.source).1 <;> rfl

/-! ## Outcomes of a kind -/

/-- An outcome that a search of a kind has on some source. -/
def IsOutcome (σ : Type) [Source σ] (g : Grammar) (bound : Value) (kind : ExtremeKind)
    (outcome : Except Failure Extreme) : Prop :=
  ∃ s : σ, (findAt g bound kind s).1 = outcome

/-- The outcomes of searches in turn are those of their kinds, one for each. -/
theorem forall₂_findInTurn (g : Grammar) (bound : Value) (kinds : List ExtremeKind) (s : σ) :
    List.Forall₂ (IsOutcome σ g bound) kinds (findInTurn g bound kinds s).1 := by
  induction kinds generalizing s with
  | nil => exact .nil
  | cons kind kinds ih => exact .cons ⟨s, rfl⟩ (ih _)

theorem IsOutcome.exists_runOn {outcome : Except Failure Extreme}
    (h : IsOutcome σ g bound kind outcome) : ∃ f f' : Finder σ, f.grammar = g ∧
      f.depthBound = bound ∧ (find kind).runOn f = (outcome, f') := by
  obtain ⟨s, rfl⟩ := h
  exact ⟨_, _, rfl, rfl, rfl⟩

theorem IsOutcome.kind_eq {x : Extreme} (h : IsOutcome σ g bound kind (.ok x)) :
    x.kind = kind := by
  obtain ⟨f, f', -, -, hrun⟩ := h.exists_runOn
  exact (find_givesOnly kind f x f' hrun).kind_eq

/-- Where every nonterminal has a production, a search fails only at its bound, and only if its kind
has one. -/
theorem IsOutcome.of_error [LawfulSource σ] {D : Nat} (hD : 0 < D)
    (hproductions : ∀ s ∈ g.nonterminals, g.productionsFor s ≠ []) {e : Failure}
    (h : IsOutcome σ g (.int D) kind (.error e)) :
    (∃ d, e = .depthExceeded d) ∧ kind.isSure = false := by
  obtain ⟨f, f', rfl, hbound, hrun⟩ := h.exists_runOn
  rcases find_failsOnly hD kind hbound e f' hrun with hreached | ⟨n, -, hdeclared, hlack⟩
  · exact hreached
  · exact absurd hlack (hproductions _ hdeclared)

/-- A search of a sure kind finds a string, where every nonterminal has a production. -/
theorem IsOutcome.of_isSure [LawfulSource σ] {D : Nat} (hD : 0 < D)
    (hproductions : ∀ s ∈ g.nonterminals, g.productionsFor s ≠ []) (hkind : kind.isSure = true)
    {outcome : Except Failure Extreme} (h : IsOutcome σ g (.int D) kind outcome) :
    ∃ x, outcome = .ok x := by
  cases outcome with
  | ok x => exact ⟨x, rfl⟩
  | error e =>
    have hunsure := (h.of_error hD hproductions).2
    rw [hkind] at hunsure
    cases hunsure

/-- The search for the minimal derivation has one outcome, whatever the source is. -/
theorem IsOutcome.unique_minDepth {r r' : Except Failure Extreme}
    (h : IsOutcome σ g bound .minDepth r) (h' : IsOutcome σ g bound .minDepth r') : r = r' := by
  obtain ⟨s, rfl⟩ := h
  obtain ⟨t, rfl⟩ := h'
  simp only [findAt, find, shallowest, runOn_bind, runOn_get]
  -- What it gives depends on the minimal derivation alone, which knows no source.
  cases g.minimalDerivation Grammar.minimalStepLimit <;> rfl

/-- The deepest string that is found has the length of a trace within twice the bound. -/
theorem IsOutcome.exists_depth [LawfulSource σ] {B : Nat} (hB : 0 < B)
    (hstart : g.start.isNonterminal = true) {x : Extreme}
    (h : IsOutcome σ g (.int B) .maxDepth (.ok x)) :
    ∃ n : Nat, x.depth = .int n ∧ 2 ≤ n ∧ n ≤ 2 * B + 1 := by
  obtain ⟨f, f', rfl, hbound, hrun⟩ := h.exists_runOn
  obtain ⟨-, -, -, -, -, ⟨d, -, hderivation, -, hx⟩ | ⟨-, hother⟩⟩ :=
    derivation_of_find hB hbound hstart rfl hrun
  · have hvalue := hx.value
    rw [Extreme.value, hx.kind] at hvalue
    exact ⟨d.steps.length, hvalue, hderivation.two_le_length, hderivation.length_le⟩
  · cases hother

/-! ## Results of outcomes of kinds -/

section

variable (h : List.Forall₂ (IsOutcome σ g bound) kinds outcomes)

include h

/-- The results have the kinds that were searched, without those that were passed over. -/
theorem map_kind_sublist : ((outcomes.filterMap Except.toOption).map Extreme.kind).Sublist kinds := by
  induction h with
  | nil => exact .slnil
  | @cons kind outcome kinds outcomes houtcome _ ih =>
    cases outcome with
    | error e => exact ih.cons kind
    | ok x =>
      rw [List.filterMap_cons_some (f := Except.toOption) rfl, List.map_cons, houtcome.kind_eq]
      exact ih.cons_cons kind

/-- Each outcome is one of some kind. -/
theorem exists_isOutcome_of_mem {outcome : Except Failure Extreme} (hmem : outcome ∈ outcomes) :
    ∃ kind, IsOutcome σ g bound kind outcome := by
  induction h with
  | nil => cases hmem
  | @cons kind _ _ _ houtcome _ ih =>
    rcases List.mem_cons.1 hmem with rfl | hmem
    · exact ⟨kind, houtcome⟩
    · exact ih hmem

/-- Each result is an outcome of its kind. -/
theorem isOutcome_of_mem {x : Extreme} (hx : x ∈ outcomes.filterMap Except.toOption) :
    IsOutcome σ g bound x.kind (.ok x) := by
  induction h with
  | nil => cases hx
  | @cons kind outcome kinds outcomes houtcome _ ih =>
    cases outcome with
    | error e => exact ih hx
    | ok y =>
      rw [List.filterMap_cons_some (f := Except.toOption) rfl] at hx
      rcases List.mem_cons.1 hx with rfl | hx
      · rwa [houtcome.kind_eq]
      · exact ih hx

/-- A kind whose searches all find a string has one for each of them. -/
theorem length_filter_kind (hfound : ∀ r, IsOutcome σ g bound kind r → ∃ x, r = .ok x) :
    ((outcomes.filterMap Except.toOption).filter (·.kind = kind)).length = kinds.count kind := by
  induction h with
  | nil => rfl
  | @cons kind' outcome kinds outcomes houtcome _ ih =>
    rw [List.count_cons]
    cases outcome with
    | error e =>
      -- This search found nothing, so that it is of another kind.
      have hne : kind' ≠ kind := by
        rintro rfl
        obtain ⟨x, hx⟩ := hfound _ houtcome
        cases hx
      rw [List.filterMap_cons_none (f := Except.toOption) rfl, ih]
      simp [hne]
    | ok x =>
      rw [List.filterMap_cons_some (f := Except.toOption) rfl, List.filter_cons,
        houtcome.kind_eq]
      by_cases hkind : kind' = kind
      · simp [hkind, ih]
      · simp [hkind, ih]

end

/-! ## Strings of all kinds -/

/-- Each kind is repeated as often as was asked for. -/
theorem count_repeated (kind : ExtremeKind) (k : Nat) :
    (repeated ExtremeKind.all k).count kind = k := by
  cases kind <;> simp [repeated, ExtremeKind.all, List.count_append, List.count_replicate]

/-- Outcomes of all kinds make a collection. -/
theorem isCollection_of_forall₂ [LawfulSource σ] {B k : Nat} (hB : 0 < B)
    (hproductions : ∀ s ∈ g.nonterminals, g.productionsFor s ≠ [])
    (h : List.Forall₂ (IsOutcome σ g (.int B)) (repeated ExtremeKind.all k) outcomes) :
    Extreme.IsCollection B k (outcomes.filterMap Except.toOption) := by
  have hsublist := map_kind_sublist h
  have hstart : g.start.isNonterminal = true := by
    -- A production of the start symbol has it as its head.
    obtain ⟨p, hp⟩ := List.exists_mem_of_ne_nil _ (hproductions _ g.start_mem)
    have hhead : p.headSymbol = g.start := by simpa using (List.mem_filter.1 hp).2
    rw [← hhead]
    rfl
  constructor
  case inOrder => exact hsublist
  case atMost =>
    intro kind
    -- A kind occurs in a part of a list at most as often as in the list.
    have hcount := hsublist.count_le kind
    rw [count_repeated, List.count, List.countP_map, List.countP_eq_length_filter] at hcount
    exact hcount
  case sure =>
    intro kind hkind
    rw [length_filter_kind h fun r hr => hr.of_isSure hB hproductions hkind, count_repeated]
  case minimal =>
    refine or_iff_not_imp_left.2 fun hsome => ?_
    -- The search has the outcome that it has in one place in all others.
    have houtcome : ∀ x ∈ (outcomes.filterMap Except.toOption).filter (·.kind = .minDepth),
        IsOutcome σ g (.int B) .minDepth (.ok x) := by
      intro x hx
      rw [List.mem_filter] at hx
      have hkind : x.kind = .minDepth := by simpa using hx.2
      exact hkind ▸ isOutcome_of_mem h hx.1
    obtain ⟨e, hmem⟩ := List.exists_mem_of_ne_nil _ hsome
    have he := houtcome e hmem
    refine ⟨e, List.eq_replicate_iff.2 ⟨?_, fun x hx => ?_⟩⟩
    · rw [length_filter_kind h fun r hr => ⟨e, hr.unique_minDepth he⟩, count_repeated]
    · exact Except.ok.inj ((houtcome x hx).unique_minDepth he)
  case deepest =>
    intro e he hkind
    have houtcome := isOutcome_of_mem h he
    rw [hkind] at houtcome
    exact houtcome.exists_depth hB hstart

/-- **Strings of all kinds are a collection**, where every nonterminal has a production. The search
returns, with the results of its single searches in turn: each of them is what a search of its kind
finds on the source at that point, and those that reached their bound, which is the only way to find
nothing, neither add a result nor take one away. -/
theorem findAll_collects [LawfulSource σ] {B : Nat} (hB : 0 < B) (hbound : f.depthBound = .int B)
    (hproductions : ∀ s ∈ f.grammar.nonterminals, f.grammar.productionsFor s ≠ []) (k : Nat) :
    ∃ outcomes s es f',
      findInTurn f.grammar f.depthBound (repeated ExtremeKind.all k) f.source = (outcomes, s) ∧
      (∀ e, .error e ∈ outcomes → ∃ d, e = .depthExceeded d) ∧
      (findAll (.int k)).runOn f = (.ok es, f') ∧ f'.source = s ∧
      es = outcomes.filterMap Except.toOption ∧ Extreme.IsCollection B k es := by
  obtain ⟨f', hrun, hsource⟩ := findEach_runOn hB Log.Channel.extreme
    (repeated ExtremeKind.all k) hbound hproductions
  -- All that is said of the results is said of outcomes of the single kinds.
  have hkinds := forall₂_findInTurn f.grammar f.depthBound (repeated ExtremeKind.all k) f.source
  rw [hbound] at hkinds
  refine ⟨_, _, _, f', rfl, ?_, ?_, hsource, rfl, ?_⟩
  · intro e he
    obtain ⟨kind, houtcome⟩ := exists_isOutcome_of_mem hkinds (hbound ▸ he)
    exact (houtcome.of_error hB hproductions).1
  · rw [findAll, findRepeated, if_neg (by decide), runOn_bind]
    exact hrun
  · rw [hbound]
    exact isCollection_of_forall₂ hB hproductions hkinds

/-- Two strings of each kind of repeated letters are a collection. -/
theorem letters_collect :
    0 < 6 ∧ letterFinder.depthBound = .int (6 : Nat) ∧
      (∀ s ∈ letterFinder.grammar.nonterminals, letterFinder.grammar.productionsFor s ≠ []) ∧
      ∃ outcomes s es f',
        findInTurn letterFinder.grammar letterFinder.depthBound
          (repeated ExtremeKind.all (2 : Nat)) letterFinder.source = (outcomes, s) ∧
        (∀ e, .error e ∈ outcomes → ∃ d, e = .depthExceeded d) ∧
        (findAll (.int (2 : Nat))).runOn letterFinder = (.ok es, f') ∧ f'.source = s ∧
        es = outcomes.filterMap Except.toOption ∧ Extreme.IsCollection 6 2 es := by
  have hproductions : ∀ s ∈ letterFinder.grammar.nonterminals,
      letterFinder.grammar.productionsFor s ≠ [] := by decide
  exact ⟨by decide, rfl, hproductions, findAll_collects (by decide) rfl hproductions 2⟩

end Finder

end GrammarSuite
