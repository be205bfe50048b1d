import GrammarSuite.Proofs.Run.Shape
import GrammarSuite.Proofs.Mutation.Exact

/-!
# How runs fail

A run of a valid plan, on a readable clock and a source that never fails, has two kinds of failures
that it is meant to have: a bound was reached, or the grammar lacks productions. Apart from these only
its numbers may be out of range, and no run that fits into a memory gets so far.

## Main definitions

* `Failure.IsReported`: the failures that runs are meant to have
* `Failure.IsExcess`: the failures of numbers that are out of range
* `Plan.most`: how many cases a run makes at most
* `Run.Meets`: what holds of a result, and of a failure
* `Run.Contained`: a run has the failures only that it is meant to have

## Main results

* `Run.suite_contained`, `Run.validOnly_contained`, `Run.invalidOnly_contained`,
  `Run.extremeOnly_contained`: the runs for a valid plan
-/

namespace GrammarSuite

open GrammarSuite.Action GrammarSuite.Random

open Json (Misuse Value)

/-- The failures that runs are meant to have. -/
def Failure.IsReported : Failure → Prop
  | .depthExceeded _ | .noProductions _ => True
  | _ => False

/-- The failures of numbers that are out of range: so many cases that the number of an identifier is
too long, or a case with a number that is near the greatest double. -/
inductive Failure.IsExcess (most : Int) : Failure → Prop
  | cases (h : (Value.unwritable : Int) ≤ most) : IsExcess most (.misuse .longNumber)
  | average {c : TestCase} (h : c.Exceeds) : IsExcess most (.misuse .quotientBeyondDoubles)

theorem Grammar.IsLack.isReported {g : Grammar} {f : Failure} (h : g.IsLack f) : f.IsReported := by
  obtain ⟨n, rfl, -⟩ := h
  trivial

/-- How many cases a run for a plan makes at most, if it makes extreme strings of a number of
kinds. -/
def Plan.most (plan : Plan) (kinds : Nat) : Int :=
  plan.validCount.toInt + plan.invalidCount.toInt + kinds * plan.extremePerKind.toInt

/-- No more cases are asked for by one mode than by all of them together. -/
theorem Plan.Valid.counts_le_most {plan : Plan} (hplan : plan.Valid) {n kinds : Nat}
    (hn : n ≤ kinds) :
    plan.validCount.toInt ≤ plan.most kinds ∧ plan.invalidCount.toInt ≤ plan.most kinds ∧
      n * plan.extremePerKind.toInt ≤ plan.most kinds ∧ plan.most n ≤ plan.most kinds := by
  obtain ⟨D, v, i, k, identifier, -, heq⟩ := hplan.exists_eq
  have hv : plan.validCount.toInt = v := by rw [heq]; rfl
  have hi : plan.invalidCount.toInt = i := by rw [heq]; rfl
  have hk : plan.extremePerKind.toInt = k := by rw [heq]; rfl
  have hle : (n : Int) * k ≤ kinds * k :=
    mul_le_mul_of_nonneg_right (by exact_mod_cast hn) (Int.natCast_nonneg k)
  have hnonneg : (0 : Int) ≤ n * k := mul_nonneg (Int.natCast_nonneg n) (Int.natCast_nonneg k)
  simp only [Plan.most, hv, hi, hk]
  omega

/-- Subjects that can be labelled, and whose cases are counted. -/
def Subject.IsMade (s : Subject) : Prop :=
  s.IsProper ∧ ∀ spelling created n, (s.case spelling created n).IsCounted

theorem Subject.ofDerivations_isMade (ds : List Derivation) :
    ∀ s ∈ ds.map ofDerivation, s.IsMade :=
  List.forall_mem_map.2 fun d _ => ⟨ofDerivation_isProper d, fun _ _ _ => ofDerivation_isCounted d⟩

theorem Subject.ofMutations_isMade (ms : List Mutation) : ∀ s ∈ ms.map ofMutation, s.IsMade :=
  List.forall_mem_map.2 fun m _ => ⟨ofMutation_isProper m, fun _ _ _ => ofMutation_isCounted m⟩

theorem Subject.ofExtremes_isMade {es : List Extreme} (h : ∀ e ∈ es, e.IsMeasured) :
    ∀ s ∈ es.map ofExtreme, s.IsMade :=
  List.forall_mem_map.2 fun e he =>
    ⟨ofExtreme_isProper (h e he), fun _ _ _ => ofExtreme_isCounted (h e he)⟩

/-- Trying until one attempt succeeds fails as it is meant to. -/
theorem Engine.firstOf_failsOnly {σ : Type} [Source σ] [LawfulSource σ] (total n : Nat)
    (e : Engine σ) : (firstOf total n).FailsOnly e Failure.IsReported := by
  induction n generalizing e with
  | zero =>
    intro f e' h
    obtain ⟨hf, -⟩ := Prod.mk.inj h
    obtain rfl := Except.error.inj hf
    trivial
  | succ n ih =>
    refine ((attempt_failsOnly e).mono fun _ h => h.isReported).bind fun d e' _ => ?_
    cases d with
    | none => exact ih e'
    | some d => exact .pure d

theorem Finder.length_repeated_eq (kinds : List ExtremeKind) (k : Nat) :
    (repeated kinds k).length = kinds.length * k := by
  simp [repeated, List.length_flatMap, List.map_const', List.sum_replicate]

namespace Run

variable {σ : Type} {plan : Plan} {g : Grammar} {source : σ} {created : Instant}
  {subjects : List Subject} {α β : Type} {most : Int}

/-! ## Results and failures -/

/-- Something holds of a result, and a failure is one that runs are meant to have, unless a number is
out of range. -/
def Meets (most : Int) (result : Except Failure α) (Q : α → Prop) : Prop :=
  (∀ a, result = .ok a → Q a) ∧ ∀ f, result = .error f → f.IsReported ∨ f.IsExcess most

/-- A run has the failures only that it is meant to have, unless a number is out of range. -/
def Contained (most : Int) (x : Run α) : Prop := Yields x (Meets most · fun _ => True)

theorem Meets.pure {Q : α → Prop} {a : α} (h : Q a) :
    Meets most (Pure.pure a : Except Failure α) Q := by
  refine ⟨fun b hb => ?_, fun f hf => by cases hf⟩
  obtain rfl := Except.ok.inj hb
  exact h

theorem Meets.bind {r : Except Failure α} {k : α → Except Failure β} {Q : α → Prop} {R : β → Prop}
    (hr : Meets most r Q) (hk : ∀ a, Q a → Meets most (k a) R) : Meets most (r >>= k) R := by
  cases r with
  | ok a => exact hk a (hr.1 a rfl)
  | error f =>
    refine ⟨fun b hb => (by cases hb), fun f' hf' => ?_⟩
    obtain rfl := Except.error.inj hf'
    exact hr.2 f rfl

theorem Meets.mono {most' : Int} (hle : most ≤ most') {r : Except Failure α} {Q : α → Prop}
    (hr : Meets most r Q) : Meets most' r Q := by
  refine ⟨hr.1, fun f hf => (hr.2 f hf).imp_right fun h => ?_⟩
  cases h with
  | cases h => exact .cases (h.trans hle)
  | average h => exact .average h

theorem Contained.mono {most' : Int} (hle : most ≤ most') {x : Run α} (hx : Contained most x) :
    Contained most' x := Yields.mono hx fun _ h => h.mono hle

theorem Contained.map {x : Run α} (hx : Contained most x) (h : α → β) :
    Contained most (h <$> x) := by
  intro s hclock
  obtain ⟨hmeets, hkept⟩ := hx s hclock
  rw [runOn_map]
  refine ⟨⟨fun _ _ => trivial, fun f hf => hmeets.2 f ?_⟩, hkept⟩
  rcases hrun : (x.runOn s).1 with f' | a <;> rw [hrun] at hf <;> cases hf
  rfl

/-! ## The parts of a run -/

theorem engine_meets (hplan : plan.Valid) (g : Grammar) (source : σ) :
    Meets most (Engine.ofBound g plan.maxDepth source) fun _ => True := by
  obtain ⟨D, v, i, k, identifier, hD, rfl⟩ := hplan.exists_eq
  rw [Engine.ofBound, DepthBound.ofValue_int hD]
  exact .pure trivial

/-- Labels fail by their number only, and give counted cases. -/
theorem labels_meets (hplan : plan.Valid) (hmade : ∀ s ∈ subjects, s.IsMade)
    (hmost : subjects.length ≤ most) :
    Meets most (labels (.ok created) subjects plan.session) fun r => ∀ c ∈ r.1, c.IsCounted := by
  obtain ⟨D, v, i, k, identifier, -, rfl⟩ := hplan.exists_eq
  have hproper : ∀ s ∈ subjects, s.IsProper := fun s hs => (hmade s hs).1
  constructor
  · rintro r h c hc
    obtain ⟨-, rfl⟩ :=
      (@labels_eq_ok_iff identifier created subjects 0 hproper Value.unwritable_pos r).1 h
    obtain ⟨s, hs, n, rfl⟩ := Subject.exists_of_mem_casesAfter hc
    exact (hmade s hs).2 _ _ _
  · intro f h
    obtain ⟨rfl, hlong⟩ :=
      @longNumber_of_labels identifier created subjects 0 f hproper Value.unwritable_pos h
    exact .inr (.cases (by omega))

/-- Figures of counted cases fail by a number that is too large only. -/
theorem metrics_meets {cases : List TestCase} (hcounted : ∀ c ∈ cases, c.IsCounted) (t : Float) :
    Meets most ((Metrics.ofCases cases t).mapError .misuse) fun _ => True := by
  refine ⟨fun _ _ => trivial, fun f h => ?_⟩
  obtain ⟨rfl, c, -, hexceeds⟩ := (Metrics.ofCases_isFigure hcounted t).of_error h
  exact .inr (.average hexceeds)

variable [Source σ] [LawfulSource σ]

theorem derivations_meets (hplan : plan.Valid) (engine : Engine σ) :
    Meets most ((Engine.derivations plan.validCount).runOn engine).1
      fun ds => (ds.length : Int) ≤ plan.validCount.toInt :=
  ⟨fun _ h => (length_derivations hplan h).1,
    fun _ h => .inl (isLack_of_derivations hplan h).isReported⟩

/-- A text has no more mutations than are asked for. -/
theorem edits_meets (hplan : plan.Valid) (source : σ) (text : String) :
    Meets most (editsOf plan source (.text text))
      fun ms => (ms.length : Int) ≤ plan.invalidCount.toInt := by
  obtain ⟨D, v, i, k, identifier, -, rfl⟩ := hplan.exists_eq
  have hcollect : (Mutator.collect (.text text) i).Returns
      { source, identifier := .text identifier } fun ms _ => ms.length ≤ i := by
    by_cases hnil : Token.tokenize text = []
    · refine (Mutator.collect_of_tokenize_eq_nil hnil i _).mono ?_
      rintro _ _ rfl
      exact Nat.zero_le i
    · exact (Mutator.collect_returns hnil i rfl).mono fun ms _ h => h.1.le
  obtain ⟨ms, m', hms, hlength⟩ := hcollect
  have hedits : editsOf ⟨.int D, .int v, .int i, .int k, .text identifier⟩ source (.text text) =
      .ok ms :=
    Mutator.mutations_eq_ok_iff.2 ⟨i, rfl, by rw [Int.toNat_natCast, hms]⟩
  rw [hedits]
  exact .pure (Int.ofNat_le.2 hlength)

/-- The extreme strings of some kinds are measured, and no more than are asked for. -/
theorem extremes_meets (hplan : plan.Valid) (g : Grammar) (source : σ)
    (kinds : Option (List ExtremeKind)) :
    Meets most (extremesFor plan g source kinds) fun es => (∀ e ∈ es, e.IsMeasured) ∧
      (es.length : Int) ≤ (kinds.getD ExtremeKind.all).length * plan.extremePerKind.toInt := by
  obtain ⟨D, v, i, k, identifier, hD, rfl⟩ := hplan.exists_eq
  have hsearch : ∀ channel (kinds : List ExtremeKind), Meets most
      ((Finder.findRepeated channel kinds (.int k)).runOn
        { grammar := g, depthBound := .int D, source }).1
      fun es => (∀ e ∈ es, e.IsMeasured) ∧ (es.length : Int) ≤ kinds.length * k := by
    intro channel kinds
    refine ⟨fun es h => ?_, fun f h => .inl ?_⟩
    · rcases kinds with _ | ⟨kind, kinds⟩
      · obtain rfl := Except.ok.inj h
        simp
      · obtain ⟨n, hn, hfound⟩ := (Finder.findRepeated_eq_ok_iff (List.cons_ne_nil _ _)).1 h
        obtain rfl : (k : Int) = n := Except.ok.inj hn
        have hrun : (Finder.findEach channel (Finder.repeated (kind :: kinds) k)).runOn
            { grammar := g, depthBound := .int D, source } = (.ok es, _) := Prod.ext hfound rfl
        refine ⟨Finder.findEach_isMeasured hrun, ?_⟩
        have hlength := (Finder.length_findEach hD rfl hrun).2
        rw [Finder.length_repeated_eq] at hlength
        exact_mod_cast hlength
    · exact (Finder.findRepeated_failsOnly hD channel kinds k rfl f _ (Prod.ext h rfl)).isReported
  cases kinds with
  | none => exact hsearch _ _
  | some kinds => exact hsearch _ _

/-! ## Runs -/

/-- **A suite of a grammar that was read** is contained. -/
theorem suite_contained {text : String} {name : Value} (hg : Grammar.ofText text name = .ok g)
    (hplan : plan.Valid) (source : σ) (created : Instant) :
    Contained (plan.most 6) (suite plan g (.ok source) (.ok created) plan.session) := by
  obtain ⟨D, v, i, k, identifier, hD, hplan'⟩ := hplan.exists_eq
  have hidentifier : plan.session.identifier = .text identifier := by rw [hplan']; rfl
  intro s hclock
  refine ⟨⟨fun _ _ => trivial, fun f h => ?_⟩, (suite_yields hplan g source _ _ s hclock).2⟩
  rcases isLack_or_isOutOfRange hg hplan hidentifier hclock h with hlack | hrange
  · exact .inl hlack.isReported
  · rcases hrange with ⟨rfl, hlong⟩ | ⟨rfl, engine, ds, cases, session', s', -, -, c, -, hexceeds⟩
    · exact .inr (.cases hlong)
    · exact .inr (.average hexceeds)

/-- **Valid cases alone** are contained. -/
theorem validOnly_contained (hplan : plan.Valid) (g : Grammar) (source : σ) (created : Instant)
    (hmost : plan.validCount.toInt ≤ most) :
    Contained most (validOnly plan g (.ok source) (.ok created) plan.validCount) := by
  refine (validOnly_yields plan g source (.ok created) plan.validCount).mono ?_
  rintro _ ⟨t, rfl⟩
  have hvalid : ∀ engine : Engine σ, Meets most
      (validOf plan engine (.ok created) plan.validCount) fun r => ∀ c ∈ r.2, c.IsCounted := by
    intro engine
    refine (derivations_meets hplan engine).bind fun ds hds => ?_
    refine (labels_meets hplan (Subject.ofDerivations_isMade ds) ?_).bind fun r hr => .pure hr
    rw [List.length_map]
    exact hds.trans hmost
  refine (engine_meets hplan g source).bind fun engine _ => (hvalid engine).bind fun r hr => ?_
  exact (metrics_meets hr t).bind fun _ _ => .pure trivial

/-- Invalid cases alone, of a given text. -/
def invalidOfText (plan : Plan) (source : σ) (now : Except Misuse Instant) (text : String) :
    Except Failure (List Derivation × List TestCase) := do
  let mutations ← editsOf plan source (.text text)
  let (cases, _) ← labels now (mutations.map Subject.ofMutation) plan.session
  pure ([], cases)

omit [LawfulSource σ] in
/-- Invalid cases of a given text are made of its mutations and their figures. -/
theorem invalidOnly_text_yields (plan : Plan) (g : Grammar) (source : σ)
    (now : Except Misuse Instant) (text : String) :
    Yields (invalidOnly plan g (.ok source) now (.text text)) fun result => ∃ t, result =
      (invalidOfText plan source now text >>= fun r =>
        (Metrics.ofCases r.2 t).mapError .misuse >>= fun metrics =>
          pure { grammar := g, cases := r.2, metrics, derivations := r.1 }) := by
  simp only [invalidOnly, Failure.required, seed, pure_bind]
  refine HasResult.yields_timed_bind (r := invalidOfText plan source now text)
    (f := fun r t => (Metrics.ofCases r.2 t).mapError .misuse >>= fun metrics =>
      pure ({ grammar := g, cases := r.2, metrics, derivations := r.1 } : Outcome)) ?_ ?_
  · refine HasResult.after (hasResult_note _ _) ((hasResult_mutated plan source _).bind fun _ => ?_)
    exact (hasResult_classified _ _ _).bind fun _ => hasResult_pure _
  · rintro ⟨derivations, cases⟩ t
    exact (hasResult_measured _ _).bind fun _ => hasResult_pure _

/-- **Invalid cases alone**, of a given text or of a derived one, are contained. -/
theorem invalidOnly_contained (hplan : plan.Valid) (g : Grammar) (source : σ) (created : Instant)
    {given : Value} (hgiven : given = .null ∨ ∃ text, given = .text text)
    (hmost : plan.invalidCount.toInt ≤ most) :
    Contained most (invalidOnly plan g (.ok source) (.ok created) given) := by
  have hlabels : ∀ ms : List Mutation, (ms.length : Int) ≤ plan.invalidCount.toInt →
      Meets most (labels (.ok created) (ms.map Subject.ofMutation) plan.session)
        fun r => ∀ c ∈ r.1, c.IsCounted := by
    intro ms hms
    refine labels_meets hplan (Subject.ofMutations_isMade ms) ?_
    rw [List.length_map]
    exact hms.trans hmost
  rcases hgiven with rfl | ⟨text, rfl⟩
  · refine (invalidOnly_yields plan g source (.ok created)).mono ?_
    rintro _ ⟨t, rfl⟩
    have hseed : Meets most (seedOf plan g source) fun r => ∃ text, r.1 = .text text := by
      refine (engine_meets hplan g source).bind fun engine _ => ?_
      have hderived : Meets most (Engine.seedDerivation.runOn engine).1 fun _ => True :=
        ⟨fun _ _ => trivial, fun f h => .inl (Engine.firstOf_failsOnly _ _ engine f _ (Prod.ext h rfl))⟩
      exact hderived.bind fun d _ => .pure ⟨d.text, rfl⟩
    have hinvalid : Meets most (invalidOf plan g source (.ok created))
        fun r => ∀ c ∈ r.2, c.IsCounted := by
      refine hseed.bind ?_
      rintro ⟨_, derivations⟩ ⟨text, rfl⟩
      refine (edits_meets hplan source text).bind fun ms hms => ?_
      exact (hlabels ms hms).bind fun r hr => .pure hr
    exact hinvalid.bind fun r hr => (metrics_meets hr t).bind fun _ _ => .pure trivial
  · refine (invalidOnly_text_yields plan g source (.ok created) text).mono ?_
    rintro _ ⟨t, rfl⟩
    have hinvalid : Meets most (invalidOfText plan source (.ok created) text)
        fun r => ∀ c ∈ r.2, c.IsCounted := by
      refine (edits_meets hplan source text).bind fun ms hms => ?_
      exact (hlabels ms hms).bind fun r hr => .pure hr
    exact hinvalid.bind fun r hr => (metrics_meets hr t).bind fun _ _ => .pure trivial

/-- **Extreme cases alone** are contained. -/
theorem extremeOnly_contained (hplan : plan.Valid) (g : Grammar) (source : σ) (created : Instant)
    (kinds : Option (List ExtremeKind))
    (hmost : (kinds.getD ExtremeKind.all).length * plan.extremePerKind.toInt ≤ most) :
    Contained most (extremeOnly plan g (.ok source) (.ok created) kinds) := by
  refine (extremeOnly_yields plan g source (.ok created) kinds).mono ?_
  rintro _ ⟨t, rfl⟩
  have hextreme : Meets most (extremeOf plan g source (.ok created) kinds)
      fun cases => ∀ c ∈ cases, c.IsCounted := by
    refine (extremes_meets hplan g source kinds).bind fun es hes => ?_
    refine (labels_meets hplan (Subject.ofExtremes_isMade hes.1) ?_).bind fun r hr => .pure hr
    rw [List.length_map]
    exact hes.2.trans hmost
  exact hextreme.bind fun cases hcases => (metrics_meets hcases t).bind fun _ _ => .pure trivial

end Run

end GrammarSuite
