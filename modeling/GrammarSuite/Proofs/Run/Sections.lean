import Mathlib.Data.List.ReduceOption
import GrammarSuite.Proofs.Run.Results
import GrammarSuite.Proofs.Grammar.Tokens
import GrammarSuite.Proofs.Mutation.Collection
import GrammarSuite.Proofs.Extreme.Search
import GrammarSuite.Proofs.Metrics.Counts

/-!
# The sections of a suite

What the sections of a suite find, and how many cases they make: at most as many derivations as are
asked for, as many mutations as are asked for if something was derived, and between three and six
extreme strings for each one asked for of a kind. The cases are numbered from one, across the
sections.

## Main definitions

* `Run.Found`: what the sections of a suite find
* `Run.casesOf`: the cases that are made of it

## Main results

* `Run.sectionsOf_eq_ok_iff`: the sections give the cases of what they find
* `Run.sectionsOf_eq_error`: how the sections fail
* `Run.length_derivations`, `Run.exists_mutationsOf`, `Run.length_extremesOf`: how much is found
* `Run.suite_eq_ok`, `Run.suite_eq_error`: what a suite gives, and how it fails
-/

namespace GrammarSuite

open GrammarSuite.Action GrammarSuite.Random

open Json (Misuse Value)

namespace Plan

/-- A valid plan consists of a positive bound, three numbers and a spelling. -/
theorem Valid.exists_eq {plan : Plan} (h : plan.Valid) : ∃ (D v i k : Nat) (spelling : String),
    0 < D ∧ plan = ⟨.int D, .int v, .int i, .int k, .text spelling⟩ := by
  obtain ⟨maxDepth, validCount, invalidCount, extremePerKind, identifier⟩ := plan
  have hnumber : ∀ {least : Int} {v : Value}, 0 ≤ least → reaches least v →
      ∃ n : Nat, v = .int n ∧ least ≤ n := fun {least v} hleast hv => by
    cases v with
    | int n =>
      have hn : least ≤ n := by simpa [reaches] using hv
      exact ⟨n.toNat, by rw [Int.toNat_of_nonneg (hleast.trans hn)], by omega⟩
    | _ => cases hv
  obtain ⟨hdepth, hvalid, hinvalid, hextreme, hidentifier⟩ := h
  obtain ⟨D, rfl, hD⟩ := hnumber (by decide) hdepth
  obtain ⟨v, rfl, -⟩ := hnumber le_rfl hvalid
  obtain ⟨i, rfl, -⟩ := hnumber le_rfl hinvalid
  obtain ⟨k, rfl, -⟩ := hnumber le_rfl hextreme
  cases identifier with
  | text spelling => exact ⟨D, v, i, k, spelling, by omega, rfl⟩
  | _ => cases hidentifier

end Plan

namespace Run

variable {σ : Type} [Source σ] {plan : Plan} {engine : Engine σ} {ds : List Derivation}
  {ms : List Mutation} {es : List Extreme} {spelling : String} {created : Instant}

/-- What the sections of a suite find. -/
structure Found (plan : Plan) (engine : Engine σ) (ds : List Derivation) (ms : List Mutation)
    (es : List Extreme) : Prop where
  derived : ((Engine.derivations plan.validCount).runOn engine).1 = .ok ds
  mutated : mutationsOf plan engine.source ds = .ok ms
  searched : extremesOf plan engine.grammar engine.source = .ok es

/-- The cases that are made of what the sections find. -/
def casesOf (spelling : String) (created : Instant) (ds : List Derivation) (ms : List Mutation)
    (es : List Extreme) : List TestCase :=
  Subject.casesAfter spelling created 0
    (ds.map Subject.ofDerivation ++ ms.map Subject.ofMutation ++ es.map Subject.ofExtreme)

/-! ## Labels -/

/-- Proper subjects get the labels after the counter, or a number is too long. -/
theorem labels_eq {subjects : List Subject} {n : Nat} (hproper : ∀ s ∈ subjects, s.IsProper)
    (hcounter : n < Value.unwritable) :
    labels (.ok created) subjects ⟨.text spelling, .int n⟩ =
      if n + subjects.length < Value.unwritable then
        .ok (Subject.casesAfter spelling created n subjects,
          ⟨.text spelling, .int (n + subjects.length : Nat)⟩)
      else .error (.misuse .longNumber) := by
  unfold labels
  split
  · rename_i hn
    rw [Session.classifyAll_runOn hproper hn]
    rfl
  · rename_i hn
    dsimp only
    rw [Session.classifyAll_eq_error hproper hcounter (by omega)]
    rfl

theorem labels_eq_ok_iff {subjects : List Subject} {n : Nat} (hproper : ∀ s ∈ subjects, s.IsProper)
    (hcounter : n < Value.unwritable) {result : List TestCase × Session} :
    labels (.ok created) subjects ⟨.text spelling, .int n⟩ = .ok result ↔
      n + subjects.length < Value.unwritable ∧
        result = (Subject.casesAfter spelling created n subjects,
          ⟨.text spelling, .int (n + subjects.length : Nat)⟩) := by
  rw [labels_eq hproper hcounter]
  split
  · rename_i hn
    simp [hn, eq_comm]
  · rename_i hn
    simp [hn]

theorem ofDerivations_isProper (ds : List Derivation) :
    ∀ s ∈ ds.map Subject.ofDerivation, s.IsProper := by
  intro s hs
  obtain ⟨d, -, rfl⟩ := List.mem_map.1 hs
  exact Subject.ofDerivation_isProper d

theorem ofMutations_isProper (ms : List Mutation) :
    ∀ s ∈ ms.map Subject.ofMutation, s.IsProper := by
  intro s hs
  obtain ⟨m, -, rfl⟩ := List.mem_map.1 hs
  exact Subject.ofMutation_isProper m

theorem ofExtremes_isProper (h : ∀ e ∈ es, e.IsMeasured) :
    ∀ s ∈ es.map Subject.ofExtreme, s.IsProper := by
  intro s hs
  obtain ⟨e, he, rfl⟩ := List.mem_map.1 hs
  exact Subject.ofExtreme_isProper (h e he)

/-! ## What is found -/

/-- The extreme strings of a plan are found by one search. -/
theorem extremesOf_eq_ok {g : Grammar} {source : σ} {k : Nat} (hk : plan.extremePerKind = .int k)
    (h : extremesOf plan g source = .ok es) : ∃ f',
      (Finder.findEach Log.Channel.extreme (Finder.repeated ExtremeKind.all k)).runOn
        { grammar := g, depthBound := plan.maxDepth, source } = (.ok es, f') := by
  obtain ⟨n, hn, hsearch⟩ := (Finder.findRepeated_eq_ok_iff (by decide)).1 h
  rw [hk] at hn
  obtain rfl := Except.ok.inj hn
  exact ⟨_, Prod.ext hsearch rfl⟩

theorem isMeasured_of_extremesOf {g : Grammar} {source : σ} (hplan : plan.Valid)
    (h : extremesOf plan g source = .ok es) : ∀ e ∈ es, e.IsMeasured := by
  obtain ⟨D, v, i, k, identifier, -, rfl⟩ := hplan.exists_eq
  obtain ⟨f', hsearch⟩ := extremesOf_eq_ok rfl h
  exact Finder.findEach_isMeasured hsearch

/-- There are at most as many derivations as are asked for, and each is generated. -/
theorem length_derivations (hplan : plan.Valid)
    (h : ((Engine.derivations plan.validCount).runOn engine).1 = .ok ds) :
    (ds.length : Int) ≤ plan.validCount.toInt ∧ ∀ d ∈ ds, engine.grammar.Generates d.text := by
  obtain ⟨D, v, i, k, identifier, -, rfl⟩ := hplan.exists_eq
  obtain ⟨n, attempted, hn, hattempted, rfl⟩ := Engine.derivations_eq_ok_iff.1 h
  obtain rfl := Except.ok.inj hn
  have hrun : (Engine.attempts (v : Int).toNat).runOn engine = (.ok attempted, _) :=
    Prod.ext hattempted rfl
  refine ⟨?_, fun d hd => Engine.generates_of_attempts hrun (List.reduceOption_mem_iff.1 hd)⟩
  have hlength := Engine.attempts_length hrun
  have hle := List.reduceOption_length_le attempted
  simp only [Value.toInt]
  omega

section

variable [LawfulSource σ]

/-- **A derived string with tokens has as many mutations as are asked for**, each of which remembers
the string. -/
theorem exists_mutationsOf (hplan : plan.Valid) (source : σ) {d : Derivation}
    (htoken : Token.tokenize d.text ≠ []) (ds : List Derivation) :
    ∃ ms, mutationsOf plan source (d :: ds) = .ok ms ∧
      (ms.length : Int) = plan.invalidCount.toInt ∧ ∀ m ∈ ms, m.unedited = d.text := by
  obtain ⟨D, v, i, k, identifier, -, rfl⟩ := hplan.exists_eq
  obtain ⟨ms, m', hrun, hlength, hunedited⟩ := Mutator.mutations_returns htoken
    (show Mutator.identifier { source, identifier := .text identifier } = .text identifier from rfl)
  exact ⟨ms, congrArg Prod.fst hrun, congrArg Nat.cast hlength, hunedited⟩

/-- **Three to six extreme strings** are found for each one asked for of a kind. -/
theorem length_extremesOf {g : Grammar} {source : σ} (hplan : plan.Valid)
    (h : extremesOf plan g source = .ok es) :
    3 * plan.extremePerKind.toInt ≤ es.length ∧ es.length ≤ 6 * plan.extremePerKind.toInt := by
  obtain ⟨D, v, i, k, identifier, hD, rfl⟩ := hplan.exists_eq
  obtain ⟨f', hsearch⟩ := extremesOf_eq_ok rfl h
  obtain ⟨hleast, hmost⟩ := Finder.length_findEach hD rfl hsearch
  rw [Finder.countP_isSure_repeated] at hleast
  rw [Finder.length_repeated] at hmost
  simp only [Value.toInt]
  omega

theorem isLack_of_extremesOf {g : Grammar} {source : σ} {f : Failure} (hplan : plan.Valid)
    (h : extremesOf plan g source = .error f) : g.IsLack f := by
  obtain ⟨D, v, i, k, identifier, hD, rfl⟩ := hplan.exists_eq
  exact Finder.findRepeated_failsOnly hD _ _ _ rfl f _ (Prod.ext h rfl)

theorem isLack_of_derivations {f : Failure} (hplan : plan.Valid)
    (h : ((Engine.derivations plan.validCount).runOn engine).1 = .error f) :
    engine.grammar.IsLack f := by
  obtain ⟨D, v, i, k, identifier, hD, rfl⟩ := hplan.exists_eq
  exact Engine.derivations_failsOnly _ engine f _ (Prod.ext h rfl)

end

/-! ## The cases -/

theorem casesOf_eq (spelling : String) (created : Instant) (ds : List Derivation)
    (ms : List Mutation) (es : List Extreme) : casesOf spelling created ds ms es =
      Subject.casesAfter spelling created 0 (ds.map Subject.ofDerivation) ++
        Subject.casesAfter spelling created ds.length (ms.map Subject.ofMutation) ++
        Subject.casesAfter spelling created (ds.length + ms.length) (es.map Subject.ofExtreme) := by
  rw [casesOf, Subject.casesAfter_append, Subject.casesAfter_append, List.length_append,
    List.length_map, List.length_map, Nat.zero_add, Nat.zero_add]

/-- **The sections give the cases of what they find**, if their numbers can be written. -/
theorem sectionsOf_eq_ok_iff (hplan : plan.Valid)
    {result : List Derivation × List TestCase × Session} :
    sectionsOf plan engine (.ok created) ⟨.text spelling, .int (0 : Nat)⟩ = .ok result ↔
      ∃ ds ms es, Found plan engine ds ms es ∧
        ds.length + ms.length + es.length < Value.unwritable ∧
        result = (ds, casesOf spelling created ds ms es,
          ⟨.text spelling, .int (ds.length + ms.length + es.length : Nat)⟩) := by
  simp only [sectionsOf, bind_eq_ok_iff]
  constructor
  · rintro ⟨ds, hds, _, hvalid, ms, hms, _, hinvalid, es, hes, _, hextreme, hresult⟩
    obtain ⟨hn, rfl⟩ := (labels_eq_ok_iff (ofDerivations_isProper ds) Value.unwritable_pos).1 hvalid
    obtain ⟨hn', rfl⟩ := (labels_eq_ok_iff (ofMutations_isProper ms) hn).1 hinvalid
    obtain ⟨hn'', rfl⟩ := (labels_eq_ok_iff
      (ofExtremes_isProper (isMeasured_of_extremesOf hplan hes)) hn').1 hextreme
    simp only [List.length_map, Nat.zero_add] at hn hn' hn'' hresult
    refine ⟨ds, ms, es, ⟨hds, hms, hes⟩, hn'', ?_⟩
    rw [casesOf_eq]
    exact (Except.ok.inj hresult).symm
  · rintro ⟨ds, ms, es, ⟨hds, hms, hes⟩, hn, rfl⟩
    refine ⟨ds, hds, _, (labels_eq_ok_iff (ofDerivations_isProper ds) Value.unwritable_pos).2
        ⟨?_, rfl⟩,
      ms, hms, _, (labels_eq_ok_iff (ofMutations_isProper ms) ?_).2 ⟨?_, rfl⟩,
      es, hes, _, (labels_eq_ok_iff (ofExtremes_isProper (isMeasured_of_extremesOf hplan hes)) ?_).2
        ⟨?_, rfl⟩, ?cases⟩
    case cases =>
      simp only [List.length_map, Nat.zero_add]
      rw [casesOf_eq]
      rfl
    all_goals
      simp only [List.length_map]
      omega

/-- A label that cannot be given is a number that is too long. -/
theorem longNumber_of_labels {subjects : List Subject} {n : Nat} {f : Failure}
    (hproper : ∀ s ∈ subjects, s.IsProper) (hcounter : n < Value.unwritable)
    (h : labels (.ok created) subjects ⟨.text spelling, .int n⟩ = .error f) :
    f = .misuse .longNumber ∧ Value.unwritable ≤ n + subjects.length := by
  rw [labels_eq hproper hcounter] at h
  split at h
  · cases h
  · rename_i hn
    exact ⟨(Except.error.inj h).symm, by omega⟩

/-- **The sections fail only where the grammar lacks productions**, or if so many cases are asked
for that a number is too long to be written. -/
theorem sectionsOf_eq_error [LawfulSource σ] (hplan : plan.Valid)
    (htoken : ∀ text, engine.grammar.Generates text → Token.tokenize text ≠ []) {f : Failure}
    (h : sectionsOf plan engine (.ok created) ⟨.text spelling, .int (0 : Nat)⟩ = .error f) :
    engine.grammar.IsLack f ∨ (f = .misuse .longNumber ∧ (Value.unwritable : Int) ≤
      plan.validCount.toInt + plan.invalidCount.toInt + 6 * plan.extremePerKind.toInt) := by
  obtain ⟨D, v, i, k, identifier, hD, heq⟩ := hplan.exists_eq
  have hcounts : 0 ≤ plan.invalidCount.toInt ∧ 0 ≤ plan.extremePerKind.toInt := by
    rw [heq]
    exact ⟨Int.natCast_nonneg i, Int.natCast_nonneg k⟩
  -- One part after the other either fails or leaves what the next one goes on from.
  simp only [sectionsOf, bind_eq_error_iff] at h
  rcases h with h | ⟨ds, hds, h⟩
  · exact .inl (isLack_of_derivations hplan h)
  obtain ⟨hv, hgenerates⟩ := length_derivations hplan hds
  rcases h with h | ⟨_, hvalid, h⟩
  · obtain ⟨rfl, hlong⟩ :=
      longNumber_of_labels (ofDerivations_isProper ds) Value.unwritable_pos h
    rw [List.length_map] at hlong
    exact .inr ⟨rfl, by omega⟩
  obtain ⟨hn, rfl⟩ := (labels_eq_ok_iff (ofDerivations_isProper ds) Value.unwritable_pos).1 hvalid
  -- The mutations do not fail: what was derived has a token, and otherwise nothing is mutated.
  have hmutations : ∃ ms, mutationsOf plan engine.source ds = .ok ms ∧
      (ms.length : Int) ≤ plan.invalidCount.toInt := by
    cases ds with
    | nil => exact ⟨[], rfl, hcounts.1⟩
    | cons d ds =>
      obtain ⟨ms, hms, hi, -⟩ := exists_mutationsOf hplan engine.source
        (htoken _ (hgenerates d List.mem_cons_self)) ds
      exact ⟨ms, hms, hi.le⟩
  obtain ⟨ms, hms, hi⟩ := hmutations
  rcases h with h | ⟨ms', hms', h⟩
  · rw [hms] at h
    cases h
  obtain rfl := Except.ok.inj (hms.symm.trans hms')
  rcases h with h | ⟨_, hinvalid, h⟩
  · obtain ⟨rfl, hlong⟩ := longNumber_of_labels (ofMutations_isProper ms) hn h
    rw [List.length_map, List.length_map] at hlong
    exact .inr ⟨rfl, by omega⟩
  obtain ⟨hn', rfl⟩ := (labels_eq_ok_iff (ofMutations_isProper ms) hn).1 hinvalid
  rcases h with h | ⟨es, hes, h⟩
  · exact .inl (isLack_of_extremesOf hplan h)
  rcases h with h | ⟨_, _, h⟩
  · obtain ⟨rfl, hlong⟩ := longNumber_of_labels
      (ofExtremes_isProper (isMeasured_of_extremesOf hplan hes)) hn' h
    rw [List.length_map, List.length_map, List.length_map] at hlong
    have hk := (length_extremesOf hplan hes).2
    exact .inr ⟨rfl, by omega⟩
  · cases h

/-! ## Suites -/

theorem casesOf_isCounted (hmeasured : ∀ e ∈ es, e.IsMeasured) :
    ∀ c ∈ casesOf spelling created ds ms es, c.IsCounted := by
  intro c hc
  obtain ⟨s, hs, n, rfl⟩ := Subject.exists_of_mem_casesAfter hc
  rcases List.mem_append.1 hs with hs | hs
  · rcases List.mem_append.1 hs with hs | hs
    · obtain ⟨d, -, rfl⟩ := List.mem_map.1 hs
      exact Subject.ofDerivation_isCounted d
    · obtain ⟨m, -, rfl⟩ := List.mem_map.1 hs
      exact Subject.ofMutation_isCounted m
  · obtain ⟨e, he, rfl⟩ := List.mem_map.1 hs
    exact Subject.ofExtreme_isCounted (hmeasured e he)

theorem reset_eq {session : Session} (h : session.identifier = .text spelling) :
    session.reset = ⟨.text spelling, .int (0 : Nat)⟩ := by
  rw [Session.reset, h]
  rfl

/-- **What a suite gives** are the cases of what its sections find, with their figures. -/
theorem suite_eq_ok {g : Grammar} {source : σ} {session session' : Session} {s : RunState}
    {o : Outcome} (hplan : plan.Valid) (hsession : session.identifier = .text spelling)
    (hclock : s.clock.IsReadable)
    (h : ((suite plan g (.ok source) (.ok created) session).runOn s).1 = .ok (o, session')) :
    ∃ engine ds ms es t, Engine.ofBound g plan.maxDepth source = .ok engine ∧
      Found plan engine ds ms es ∧ ds.length + ms.length + es.length < Value.unwritable ∧
      o.derivations = ds ∧ o.cases = casesOf spelling created ds ms es ∧
      Metrics.ofCases o.cases t = .ok o.metrics := by
  obtain ⟨⟨t, ht⟩, -⟩ := suite_yields hplan g source (.ok created) session s hclock
  rw [h, reset_eq hsession] at ht
  simp only [@eq_comm _ (Except.ok (o, session')), bind_eq_ok_iff] at ht
  obtain ⟨engine, hengine, _, hsections, metrics, hmetrics, hresult⟩ := ht
  obtain ⟨ds, ms, es, hfound, hn, rfl⟩ := (sectionsOf_eq_ok_iff hplan).1 hsections
  obtain ⟨rfl, -⟩ := Prod.mk.inj (Except.ok.inj hresult)
  exact ⟨engine, ds, ms, es, t, hengine, hfound, hn, rfl, rfl, mapError_eq_ok_iff.1 hmetrics⟩

/-- **How a suite fails**: as its sections do, or because an average of the figures is no double. -/
theorem suite_eq_error {g : Grammar} {source : σ} {session : Session} {s : RunState} {f : Failure}
    (hplan : plan.Valid) (hsession : session.identifier = .text spelling)
    (hclock : s.clock.IsReadable)
    (h : ((suite plan g (.ok source) (.ok created) session).runOn s).1 = .error f) :
    ∃ engine, Engine.ofBound g plan.maxDepth source = .ok engine ∧
      (sectionsOf plan engine (.ok created) session.reset = .error f ∨
        ∃ ds cases session', sectionsOf plan engine (.ok created) session.reset =
          .ok (ds, cases, session') ∧ f = .misuse .quotientBeyondDoubles ∧
          ∃ c ∈ cases, c.Exceeds) := by
  obtain ⟨⟨t, ht⟩, -⟩ := suite_yields hplan g source (.ok created) session s hclock
  rw [h] at ht
  rcases bind_eq_error_iff.1 ht.symm with hengine | ⟨engine, hengine, ht⟩
  · obtain ⟨D, v, i, k, identifier, hD, rfl⟩ := hplan.exists_eq
    rw [Engine.ofBound, DepthBound.ofValue_int hD] at hengine
    cases hengine
  refine ⟨engine, hengine, ?_⟩
  rcases bind_eq_error_iff.1 ht with hsections | ⟨⟨ds, cases, session'⟩, hsections, ht⟩
  · exact .inl hsections
  refine .inr ⟨ds, cases, session', hsections, ?_⟩
  rw [reset_eq hsession] at hsections
  obtain ⟨ds, ms, es, hfound, -, hresult⟩ := (sectionsOf_eq_ok_iff hplan).1 hsections
  obtain ⟨rfl, rfl, rfl⟩ : _ ∧ _ ∧ _ := by simpa using hresult
  have hcounted : ∀ c ∈ casesOf spelling created ds ms es, c.IsCounted :=
    casesOf_isCounted (isMeasured_of_extremesOf hplan hfound.searched)
  rcases bind_eq_error_iff.1 ht with hmetrics | ⟨metrics, -, hpure⟩
  · exact (Metrics.ofCases_isFigure hcounted t).of_error hmetrics
  · cases hpure

/-! ## Small suites -/

/-- A plan for a number of valid cases and as many invalid ones. -/
def smallPlan (n : Nat) : Plan :=
  { maxDepth := .int 6, validCount := .int n, invalidCount := .int n }

/-- The start of a year. -/
def newYear : Instant :=
  { year := 2024, month := 1, day := 1, hour := 0, minute := 0, second := 0 }

/-- The clock of a run that takes no time. -/
def stillClock : RunState := { clock := Clock.ofReadings [0.0] }

/-- A source that draws the second candidate wherever there are two. -/
def secondDraws : Script := { first := 1, others := [] }

/-- What a small suite gives. -/
def smallSuite (n : Nat) (g : Grammar) : Except Failure (Outcome × Session) :=
  ((suite (smallPlan n) g (.ok secondDraws) (.ok newYear) (smallPlan n).session).runOn
    stillClock).1

/-- Small suites of letters have valid cases. -/
theorem exists_smallSuite_letters {n : Nat} (hn : n = 1 ∨ n = 2) :
    ∃ o session', smallSuite n Engine.letters = .ok (o, session') ∧
      ∃ c ∈ o.cases, c.category = .valid := by
  have hany : (smallSuite n Engine.letters).toOption.any (fun result =>
      result.1.cases.any (·.category = .valid)) = true := by
    rcases hn with rfl | rfl <;> decide +kernel
  obtain ⟨⟨o, session'⟩, hsuite, hvalid⟩ := exists_eq_ok_of_any hany
  obtain ⟨c, hc, hcategory⟩ := List.any_eq_true.1 hvalid
  exact ⟨o, session', hsuite, c, hc, of_decide_eq_true hcategory⟩

end Run

end GrammarSuite
