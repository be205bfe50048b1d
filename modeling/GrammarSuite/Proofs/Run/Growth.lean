import GrammarSuite.Proofs.Run.Shape

/-!
# Growth of suites

Each section of a suite draws from a source of its own, and none of them looks ahead. So two suites
of the same grammar and source differ only as far as their plans do: more valid cases go on from
fewer, more invalid cases go on from fewer as long as there is something to mutate, and the extreme
cases hang on their own number only. The counts of one section do not change what is in another one.

## Main definitions

* `Outcome.contentsOf`: the contents of the cases of a category

## Main results

* `Run.derivations_isPrefix`, `Run.mutationsOf_isPrefix`, `Run.extremesOf_congr`: the sections by
  themselves
* `Run.sections_grow`: the sections of two suites
-/

namespace GrammarSuite

open GrammarSuite.Action GrammarSuite.Random

open Json (Misuse Value)

/-- The contents of the cases of a category. -/
def Outcome.contentsOf (o : Outcome) (category : Category) : List Value :=
  (o.ofCategory category).map TestCase.content

namespace Run

variable {σ : Type} [Source σ] {plan plan' : Plan} {engine : Engine σ} {ds ds' : List Derivation}

theorem contentsOf_ne_nil {o : Outcome} {category : Category} {c : TestCase} (hc : c ∈ o.cases)
    (hcategory : c.category = category) : o.contentsOf category ≠ [] :=
  List.ne_nil_of_mem
    (List.mem_map_of_mem (List.mem_filter.2 ⟨hc, decide_eq_true hcategory⟩))

/-- The contents of a suite are what its sections find. -/
theorem contentsOf_eq {ms : List Mutation} {es : List Extreme} {spelling : String}
    {created : Instant} {o : Outcome} (h : o.cases = casesOf spelling created ds ms es) :
    o.contentsOf .valid = ds.map (fun d => .text d.text) ∧
      o.contentsOf .invalid = ms.map (fun m => .text m.text) ∧
      o.contentsOf .extreme = es.map (fun e => .text e.text) := by
  obtain ⟨hvalid, hinvalid, hextreme⟩ := ofCategory_eq h
  unfold Outcome.contentsOf
  rw [hvalid, hinvalid, hextreme]
  simp only [Subject.map_content_casesAfter, List.map_map]
  exact ⟨rfl, rfl, rfl⟩

/-- **More derivations go on from fewer.** -/
theorem derivations_isPrefix (hplan : plan.Valid) (hplan' : plan'.Valid)
    (hcount : plan.validCount.toInt ≤ plan'.validCount.toInt)
    (h : ((Engine.derivations plan.validCount).runOn engine).1 = .ok ds)
    (h' : ((Engine.derivations plan'.validCount).runOn engine).1 = .ok ds') : ds <+: ds' := by
  obtain ⟨D, v, i, k, identifier, -, rfl⟩ := hplan.exists_eq
  obtain ⟨D', v', i', k', identifier', -, rfl⟩ := hplan'.exists_eq
  obtain ⟨n, few, hn, hfew, rfl⟩ := Engine.derivations_eq_ok_iff.1 h
  obtain ⟨n', many, hn', hmany, rfl⟩ := Engine.derivations_eq_ok_iff.1 h'
  obtain rfl : (v : Int) = n := Except.ok.inj hn
  obtain rfl : (v' : Int) = n' := Except.ok.inj hn'
  exact Engine.reduceOption_attempts_isPrefix (Int.toNat_le_toNat hcount) (Prod.ext hfew rfl)
    (Prod.ext hmany rfl)

/-- **The first derivation is the same** in both suites, whichever of them has more. -/
theorem derivations_head_eq (hplan : plan.Valid) (hplan' : plan'.Valid) {d d' : Derivation}
    {rest rest' : List Derivation}
    (h : ((Engine.derivations plan.validCount).runOn engine).1 = .ok (d :: rest))
    (h' : ((Engine.derivations plan'.validCount).runOn engine).1 = .ok (d' :: rest')) : d = d' := by
  rcases le_total plan.validCount.toInt plan'.validCount.toInt with hle | hle
  · exact (List.cons_prefix_cons.1 (derivations_isPrefix hplan hplan' hle h h')).1
  · exact (List.cons_prefix_cons.1 (derivations_isPrefix hplan' hplan hle h' h)).1.symm

/-- **More mutations of a derivation go on from fewer.** -/
theorem mutationsOf_isPrefix (hplan : plan.Valid) (hplan' : plan'.Valid)
    (hidentifier : plan.identifier = plan'.identifier)
    (hcount : plan.invalidCount.toInt ≤ plan'.invalidCount.toInt) {source : σ} {d : Derivation}
    {ms ms' : List Mutation} (h : mutationsOf plan source (d :: ds) = .ok ms)
    (h' : mutationsOf plan' source (d :: ds') = .ok ms') : ms <+: ms' := by
  rw [mutationsOf, editsOf, hidentifier] at h
  rw [mutationsOf, editsOf] at h'
  obtain ⟨D, v, i, k, identifier, -, rfl⟩ := hplan.exists_eq
  obtain ⟨D', v', i', k', identifier', -, rfl⟩ := hplan'.exists_eq
  obtain ⟨n, hn, hfew⟩ := Mutator.mutations_eq_ok_iff.1 h
  obtain ⟨n', hn', hmany⟩ := Mutator.mutations_eq_ok_iff.1 h'
  obtain rfl : (i : Int) = n := Except.ok.inj hn
  obtain rfl : (i' : Int) = n' := Except.ok.inj hn'
  obtain ⟨fewer, m', hfewer, hprefix⟩ := Mutator.collect_isPrefix (Int.toNat_le_toNat hcount)
    (Prod.ext hmany rfl)
  obtain rfl : fewer = ms := Except.ok.inj ((congrArg Prod.fst hfewer).symm.trans hfew)
  exact hprefix

/-- **The extreme strings hang on their number and the bound only.** -/
theorem extremesOf_congr (hdepth : plan.maxDepth = plan'.maxDepth)
    (hcount : plan.extremePerKind = plan'.extremePerKind) (g : Grammar) (source : σ) :
    extremesOf plan g source = extremesOf plan' g source := by
  rw [extremesOf, extremesOf, hdepth, hcount]

/-- **The sections of a suite grow by prefix**, and each of them hangs on its own number only. Two
suites of the same grammar and source, with the same bound and identifier, have valid contents of
which one is a prefix of the other, and so have their invalid contents if there are valid ones; and
they have the same extreme contents if they ask for as many. -/
theorem sections_grow (hplan : plan.Valid) (hplan' : plan'.Valid)
    (hdepth : plan.maxDepth = plan'.maxDepth) (hidentifier : plan.identifier = plan'.identifier)
    {g : Grammar} {source : σ} {created created' : Instant} {spelling spelling' : String}
    {session₁ session₂ session₁' session₂' : Session} {s s' : RunState} {o o' : Outcome}
    (hsession : session₁.identifier = .text spelling) (hclock : s.clock.IsReadable)
    (h : ((suite plan g (.ok source) (.ok created) session₁).runOn s).1 = .ok (o, session₂))
    (hsession' : session₁'.identifier = .text spelling') (hclock' : s'.clock.IsReadable)
    (h' : ((suite plan' g (.ok source) (.ok created') session₁').runOn s').1 =
      .ok (o', session₂')) :
    (plan.validCount.toInt ≤ plan'.validCount.toInt →
        o.contentsOf .valid <+: o'.contentsOf .valid) ∧
      (o.contentsOf .valid ≠ [] → o'.contentsOf .valid ≠ [] →
        plan.invalidCount.toInt ≤ plan'.invalidCount.toInt →
        o.contentsOf .invalid <+: o'.contentsOf .invalid) ∧
      (plan.extremePerKind = plan'.extremePerKind →
        o.contentsOf .extreme = o'.contentsOf .extreme) := by
  obtain ⟨engine, ds, ms, es, t, hengine, ⟨hderived, hmutated, hsearched⟩, -, -, hcases, -⟩ :=
    suite_eq_ok hplan hsession hclock h
  obtain ⟨engine', ds', ms', es', t', hengine', ⟨hderived', hmutated', hsearched'⟩, -, -, hcases',
    -⟩ := suite_eq_ok hplan' hsession' hclock' h'
  -- Both suites have the same engine, since they have the same bound.
  obtain rfl : engine = engine' := by
    rw [← hdepth, hengine] at hengine'
    exact Except.ok.inj hengine'
  obtain ⟨hvalid, hinvalid, hextreme⟩ := contentsOf_eq hcases
  obtain ⟨hvalid', hinvalid', hextreme'⟩ := contentsOf_eq hcases'
  rw [hvalid, hvalid', hinvalid, hinvalid', hextreme, hextreme']
  refine ⟨fun hcount => ?_, fun hne hne' hcount => ?_, fun hcount => ?_⟩
  · exact (derivations_isPrefix hplan hplan' hcount hderived hderived').map _
  · obtain ⟨d, rest, rfl⟩ := List.exists_cons_of_ne_nil (List.map_eq_nil_iff.not.1 hne)
    obtain ⟨d', rest', rfl⟩ := List.exists_cons_of_ne_nil (List.map_eq_nil_iff.not.1 hne')
    obtain rfl := derivations_head_eq hplan hplan' hderived hderived'
    exact (mutationsOf_isPrefix hplan hplan' hidentifier hcount hmutated hmutated').map _
  · rw [extremesOf_congr hdepth hcount, hsearched'] at hsearched
    rw [Except.ok.inj hsearched]

/-- A suite of two letters goes on from a suite of one. -/
theorem sections_grow_letters : ∃ o o' session session',
    smallSuite 1 Engine.letters = .ok (o, session) ∧
      smallSuite 2 Engine.letters = .ok (o', session') ∧
      (smallPlan 1).Valid ∧ (smallPlan 2).Valid ∧ (smallPlan 1).maxDepth = (smallPlan 2).maxDepth ∧
      (smallPlan 1).identifier = (smallPlan 2).identifier ∧
      (smallPlan 1).session.identifier = .text "id" ∧
      (smallPlan 2).session.identifier = .text "id" ∧
      stillClock.clock.IsReadable ∧ o.contentsOf .valid <+: o'.contentsOf .valid ∧
      o.contentsOf .invalid <+: o'.contentsOf .invalid ∧
      o.contentsOf .extreme = o'.contentsOf .extreme := by
  obtain ⟨o, session, hsuite, c, hc, hcategory⟩ := exists_smallSuite_letters (.inl rfl)
  obtain ⟨o', session', hsuite', c', hc', hcategory'⟩ := exists_smallSuite_letters (.inr rfl)
  have hplan : (smallPlan 1).Valid := by decide
  have hplan' : (smallPlan 2).Valid := by decide
  have hclock : stillClock.clock.IsReadable := Clock.isReadable_ofReadings 0.0 []
  have hsession : (smallPlan 1).session.identifier = .text "id" := rfl
  have hsession' : (smallPlan 2).session.identifier = .text "id" := rfl
  have hrun := hsuite
  have hrun' := hsuite'
  rw [smallSuite] at hrun hrun'
  obtain ⟨hvalid, hinvalid, hextreme⟩ :=
    sections_grow hplan hplan' rfl rfl hsession hclock hrun hsession' hclock hrun'
  exact ⟨o, o', session, session', hsuite, hsuite', hplan, hplan', rfl, rfl, hsession, hsession',
    hclock, hvalid (by decide), hinvalid (contentsOf_ne_nil hc hcategory)
      (contentsOf_ne_nil hc' hcategory') (by decide), hextreme rfl⟩

end Run

end GrammarSuite
