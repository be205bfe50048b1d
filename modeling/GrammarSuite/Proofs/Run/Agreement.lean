import GrammarSuite.Proofs.Run.Shape

/-!
# Agreement of runs

A run for one category draws what the section of a suite draws, and so makes the same cases: valid
cases alone are the derivations of the suite, invalid cases are mutations of the derivation that
comes first in the suite, and extreme cases of all kinds are found by the same search. Invalid and
extreme cases have other identifiers, since those of a suite count on from section to section.

The figures are taken anew. An average of theirs may be no double though all averages of the suite
are, but this needs a case of the suite with a number that is near the greatest double. The numbers
of a case count its tokens, its operators or the steps of its derivation, so that no case that fits
into a memory has one.

## Main definitions

* `Outcome.IsValidPart`, `Outcome.Shows`: an outcome has the valid cases of another one, or cases
  that show what those of a category show
* `Run.Gives`: a run gives an outcome with a property, unless a number is too large

## Main results

* `Run.seedDerivation_eq_ok`: the string that is mutated is the first one of a suite
* `Run.extremesFor_eq`: a suite and a run for all kinds search alike
* `Run.single_runs_agree`: the runs for one category agree with a suite
-/

namespace GrammarSuite

open GrammarSuite.Action GrammarSuite.Random

open Json (Misuse Value)

namespace TestCase

variable {c c' : TestCase}

theorem metadata_eq_of_face (h : c.face = c'.face) : c.metadata = c'.metadata :=
  (Prod.mk.inj (Prod.mk.inj h).2).2

/-- Whether a case is counted shows. -/
theorem IsCounted.of_face (hc : c.IsCounted) (h : c.face = c'.face) : c'.IsCounted := by
  unfold IsCounted
  rw [← metadata_eq_of_face h]
  exact hc

/-- Whether a number of a case is large shows. -/
theorem Exceeds.of_face (hc : c.Exceeds) (h : c.face = c'.face) : c'.Exceeds := by
  unfold Exceeds
  rw [← metadata_eq_of_face h]
  exact hc

end TestCase

namespace Outcome

/-- An outcome has the derivations of another one and its valid cases, but for the time at which
they are made. -/
def IsValidPart (part whole : Outcome) (created : Instant) : Prop :=
  part.derivations = whole.derivations ∧
    part.cases = (whole.ofCategory .valid).map fun c => { c with created }

/-- The cases of an outcome show what those of a category of another one show. -/
def Shows (part whole : Outcome) (category : Category) : Prop :=
  part.cases.map TestCase.face = (whole.ofCategory category).map TestCase.face

end Outcome

namespace Run

variable {σ : Type} [Source σ] {plan : Plan} {engine : Engine σ} {ds : List Derivation}
  {spelling : String} {created : Instant}

/-- With a readable clock, a run gives an outcome with a property, unless a case of a list has a
number that is too large for averages. -/
def Gives (x : Run Outcome) (cases : List TestCase) (P : Outcome → Prop) : Prop :=
  Yields x fun result => (∃ o, result = .ok o ∧ P o) ∨
    (result = .error (.misuse .quotientBeyondDoubles) ∧ ∃ c ∈ cases, c.Exceeds)

/-- Cases that show what the cases of a category of an outcome show have figures, unless a case of
the outcome has a number that is too large. -/
theorem gives_of_face {x : Run Outcome} {o : Outcome} (category : Category) {made : List TestCase}
    {outcome : Metrics → Outcome} {P : Outcome → Prop} (hcounted : ∀ c ∈ o.cases, c.IsCounted)
    (hx : Yields x fun result => ∃ t, result = (do
      let metrics ← (Metrics.ofCases made t).mapError .misuse
      pure (outcome metrics)))
    (hface : made.map TestCase.face = (o.ofCategory category).map TestCase.face)
    (hP : ∀ metrics, P (outcome metrics)) : Gives x o.cases P := by
  -- Each of the new cases shows what a case of the outcome shows.
  have hshown : ∀ c ∈ made, ∃ c' ∈ o.cases, c'.face = c.face := fun c hc => by
    have hmem : c.face ∈ (o.ofCategory category).map TestCase.face :=
      hface ▸ List.mem_map_of_mem hc
    obtain ⟨c', hc', heq⟩ := List.mem_map.1 hmem
    exact ⟨c', List.mem_of_mem_filter hc', heq⟩
  have hmade : ∀ c ∈ made, c.IsCounted := fun c hc => by
    obtain ⟨c', hc', heq⟩ := hshown c hc
    exact (hcounted c' hc').of_face heq
  refine hx.mono ?_
  rintro _ ⟨t, rfl⟩
  rcases hresult : (do
      let metrics ← (Metrics.ofCases made t).mapError Failure.misuse
      pure (outcome metrics) : Except Failure Outcome) with f | o'
  · rcases bind_eq_error_iff.1 hresult with hmetrics | ⟨metrics, -, hpure⟩
    · obtain ⟨rfl, c, hc, hexceeds⟩ := (Metrics.ofCases_isFigure hmade t).of_error hmetrics
      obtain ⟨c', hc', heq⟩ := hshown c hc
      exact .inr ⟨rfl, c', hc', hexceeds.of_face heq.symm⟩
    · cases hpure
  · obtain ⟨metrics, -, hpure⟩ := bind_eq_ok_iff.1 hresult
    obtain rfl := Except.ok.inj hpure
    exact .inl ⟨_, rfl, hP metrics⟩

/-- Proper subjects alone get the labels from one. -/
theorem labels_alone {subjects : List Subject}
    (hspelling : plan.session.identifier = .text spelling)
    (hproper : ∀ s ∈ subjects, s.IsProper) (hn : subjects.length < Value.unwritable) :
    ∃ session', labels (.ok created) subjects plan.session =
      .ok (Subject.casesAfter spelling created 0 subjects, session') := by
  have hsession : plan.session = ⟨.text spelling, .int (0 : Nat)⟩ := by
    rw [← reset_eq hspelling]
    rfl
  rw [hsession, labels_eq hproper Value.unwritable_pos, if_pos (by omega)]
  exact ⟨_, rfl⟩

section

variable {g : Grammar} {source : σ} {ms : List Mutation} {es : List Extreme}

theorem validOf_eq_ok {count : Value} (hspelling : plan.session.identifier = .text spelling)
    (hderived : ((Engine.derivations count).runOn engine).1 = .ok ds)
    (hn : ds.length < Value.unwritable) : validOf plan engine (.ok created) count =
      .ok (ds, Subject.casesAfter spelling created 0 (ds.map Subject.ofDerivation)) := by
  obtain ⟨session', hlabels⟩ := @labels_alone plan spelling created _ hspelling
    (ofDerivations_isProper ds) (by rwa [List.length_map])
  rw [validOf, hderived]
  simp only [bind, Except.bind, hlabels, pure, Except.pure]

theorem invalidOf_eq_ok {d : Derivation} (hspelling : plan.session.identifier = .text spelling)
    (hengine : Engine.ofBound g plan.maxDepth source = .ok engine)
    (hseed : (Engine.seedDerivation.runOn engine).1 = .ok d)
    (hmutated : mutationsOf plan source [d] = .ok ms) (hn : ms.length < Value.unwritable) :
    invalidOf plan g source (.ok created) =
      .ok ([d], Subject.casesAfter spelling created 0 (ms.map Subject.ofMutation)) := by
  obtain ⟨session', hlabels⟩ := @labels_alone plan spelling created _ hspelling
    (ofMutations_isProper ms) (by rwa [List.length_map])
  rw [mutationsOf] at hmutated
  rw [invalidOf, seedOf, hengine]
  simp only [bind, Except.bind, hseed, hmutated, hlabels, pure, Except.pure]

theorem extremeOf_eq_ok {kinds : Option (List ExtremeKind)}
    (hspelling : plan.session.identifier = .text spelling)
    (hsearched : extremesFor plan g source kinds = .ok es) (hmeasured : ∀ e ∈ es, e.IsMeasured)
    (hn : es.length < Value.unwritable) : extremeOf plan g source (.ok created) kinds =
      .ok (Subject.casesAfter spelling created 0 (es.map Subject.ofExtreme)) := by
  obtain ⟨session', hlabels⟩ := @labels_alone plan spelling created _ hspelling
    (ofExtremes_isProper hmeasured) (by rwa [List.length_map])
  rw [extremeOf, hsearched]
  simp only [bind, Except.bind, hlabels, pure, Except.pure]

end

/-- **The string that is mutated is the first one of a suite**, if one of the attempts that both
make succeeds. -/
theorem seedDerivation_eq_ok (hplan : plan.Valid) {e' : Engine σ} {d : Derivation}
    {attempted : List (Option Derivation)}
    (hderived : ((Engine.derivations plan.validCount).runOn engine).1 = .ok ds)
    (hattempted : (Engine.attempts (min plan.validCount.toInt.toNat Engine.seedAttempts)).runOn
      engine = (.ok attempted, e')) (hd : some d ∈ attempted) :
    ∃ first rest, ds = first :: rest ∧ (Engine.seedDerivation.runOn engine).1 = .ok first := by
  obtain ⟨D, v, i, k, identifier, -, rfl⟩ := hplan.exists_eq
  obtain ⟨n, all, hn, hall, rfl⟩ := Engine.derivations_eq_ok_iff.1 hderived
  obtain rfl : (v : Int) = n := Except.ok.inj hn
  -- The derivations of the first attempts are not empty, and those of all attempts go on from them.
  obtain ⟨first, rest, hfew⟩ : ∃ first rest, attempted.reduceOption = first :: rest :=
    List.exists_cons_of_ne_nil (List.ne_nil_of_mem (List.reduceOption_mem_iff.2 hd))
  obtain ⟨others, hothers⟩ := Engine.reduceOption_attempts_isPrefix (min_le_left _ _) hattempted
    (Prod.ext hall rfl)
  rw [hfew, List.cons_append] at hothers
  exact ⟨first, rest ++ others, hothers.symm,
    Engine.firstOf_of_attempts (min_le_right _ _) hattempted hfew⟩

/-- **A suite and a run for all kinds search alike.** -/
theorem extremesFor_eq {g : Grammar} {source : σ} {kinds : Option (List ExtremeKind)}
    (hkinds : kinds = none ∨ kinds = some ExtremeKind.all) :
    extremesFor plan g source kinds = extremesOf plan g source := by
  rcases hkinds with rfl | rfl
  · rfl
  · exact (Finder.findRepeated_alike _ _ _ _ _ _ ⟨rfl, rfl, rfl⟩).1

/-- **The runs for one category agree with a suite** of the same plan, grammar and source: valid
cases alone are those of the suite at another time, invalid cases of a derived string show what
those of the suite show, and so do extreme cases of all kinds. -/
theorem single_runs_agree (hplan : plan.Valid) {g : Grammar} {source : σ} {s : RunState}
    (hclock : s.clock.IsReadable) {o : Outcome} {session' : Session}
    (h : ((suite plan g (.ok source) (.ok created) plan.session).runOn s).1 = .ok (o, session'))
    (created' : Instant) :
    Gives (validOnly plan g (.ok source) (.ok created') plan.validCount) o.cases
        (·.IsValidPart o created') ∧
      (∀ engine attempted e' d, Engine.ofBound g plan.maxDepth source = .ok engine →
        (Engine.attempts (min plan.validCount.toInt.toNat Engine.seedAttempts)).runOn engine =
          (.ok attempted, e') → some d ∈ attempted →
        Gives (invalidOnly plan g (.ok source) (.ok created') .null) o.cases (·.Shows o .invalid)) ∧
      ∀ kinds, kinds = none ∨ kinds = some ExtremeKind.all →
        Gives (extremeOnly plan g (.ok source) (.ok created') kinds) o.cases
          (·.Shows o .extreme) := by
  obtain ⟨D, v, i, k, spelling, hD, heq⟩ := hplan.exists_eq
  have hspelling : plan.session.identifier = .text spelling := by rw [heq]; rfl
  obtain ⟨engine, ds, ms, es, t, hengine, ⟨hderived, hmutated, hsearched⟩, hn, hds, hcases, -⟩ :=
    suite_eq_ok hplan hspelling hclock h
  obtain ⟨hgrammar, hsource⟩ := Engine.eq_of_ofBound hengine
  rw [hgrammar, hsource] at hsearched
  rw [hsource] at hmutated
  obtain ⟨hvalid, hinvalid, hextreme⟩ := ofCategory_eq hcases
  have hmeasured := isMeasured_of_extremesOf hplan hsearched
  have hcounted : ∀ c ∈ o.cases, c.IsCounted := by
    rw [hcases]
    exact casesOf_isCounted hmeasured
  -- The sections found less than there are numbers, so that each of them can be labelled from one.
  refine ⟨?_, fun engine' attempted e' d hengine' hattempted hd => ?_, fun kinds hkinds => ?_⟩
  · have hmade : validOf plan engine (.ok created') plan.validCount = _ :=
      validOf_eq_ok hspelling hderived (by omega)
    have hyields := validOnly_yields plan g source (.ok created') plan.validCount
    rw [hengine] at hyields
    simp only [bind, Except.bind, hmade] at hyields
    refine gives_of_face .valid hcounted hyields ?_ fun metrics => ⟨hds.symm, ?_⟩
    · rw [hvalid, Subject.map_face_casesAfter, Subject.map_face_casesAfter]
    · rw [hvalid]
      exact Subject.casesAfter_at created' 0
  · obtain rfl := Except.ok.inj (hengine.symm.trans hengine')
    obtain ⟨first, rest, rfl, hseed⟩ := seedDerivation_eq_ok hplan hderived hattempted hd
    have hmade : invalidOf plan g source (.ok created') = _ :=
      invalidOf_eq_ok hspelling hengine hseed hmutated (by omega)
    have hyields := invalidOnly_yields plan g source (.ok created')
    simp only [bind, Except.bind, hmade] at hyields
    have hface : (Subject.casesAfter spelling created' 0 (ms.map Subject.ofMutation)).map
        TestCase.face = (o.ofCategory .invalid).map TestCase.face := by
      rw [hinvalid, Subject.map_face_casesAfter, Subject.map_face_casesAfter]
    exact gives_of_face .invalid hcounted hyields hface fun _ => hface
  · have hmade : extremeOf plan g source (.ok created') kinds = _ :=
      extremeOf_eq_ok hspelling ((extremesFor_eq hkinds).trans hsearched) hmeasured (by omega)
    have hyields := extremeOnly_yields plan g source (.ok created') kinds
    simp only [bind, Except.bind, hmade] at hyields
    have hface : (Subject.casesAfter spelling created' 0 (es.map Subject.ofExtreme)).map
        TestCase.face = (o.ofCategory .extreme).map TestCase.face := by
      rw [hextreme, Subject.map_face_casesAfter, Subject.map_face_casesAfter]
    exact gives_of_face .extreme hcounted hyields hface fun _ => hface

/-- The runs for one category agree with a suite of letters. -/
theorem single_runs_agree_letters : ∃ o session',
    smallSuite 2 Engine.letters = .ok (o, session') ∧ (smallPlan 2).Valid ∧
      stillClock.clock.IsReadable ∧
      Gives (validOnly (smallPlan 2) Engine.letters (.ok secondDraws) (.ok newYear)
        (smallPlan 2).validCount) o.cases (·.IsValidPart o newYear) ∧
      Gives (invalidOnly (smallPlan 2) Engine.letters (.ok secondDraws) (.ok newYear) .null) o.cases
        (·.Shows o .invalid) ∧
      Gives (extremeOnly (smallPlan 2) Engine.letters (.ok secondDraws) (.ok newYear) none) o.cases
        (·.Shows o .extreme) := by
  obtain ⟨o, session', hsuite, -⟩ := exists_smallSuite_letters (.inr rfl)
  have hplan : (smallPlan 2).Valid := by decide
  have hclock : stillClock.clock.IsReadable := Clock.isReadable_ofReadings 0.0 []
  have hengine : Engine.ofBound Engine.letters (smallPlan 2).maxDepth secondDraws =
      .ok { Engine.letterEngine with source := secondDraws } := rfl
  -- The first attempt succeeds, with one letter.
  obtain ⟨attempted, e', d, hattempted, hd⟩ : ∃ attempted e' d,
      (Engine.attempts (min (smallPlan 2).validCount.toInt.toNat Engine.seedAttempts)).runOn
        { Engine.letterEngine with source := secondDraws } = (.ok attempted, e') ∧
        some d ∈ attempted :=
    ⟨_, _, _, rfl, List.mem_cons_self⟩
  have hrun := hsuite
  rw [smallSuite] at hrun
  obtain ⟨hvalid, hinvalid, hextreme⟩ := single_runs_agree hplan hclock hrun newYear
  exact ⟨o, session', hsuite, hplan, hclock, hvalid,
    hinvalid _ attempted e' d hengine hattempted hd, hextreme none (.inl rfl)⟩

end Run

end GrammarSuite
