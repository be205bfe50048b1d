import GrammarSuite.Run.Suite
import GrammarSuite.Run.Single
import GrammarSuite.Proofs.Action

/-!
# Results of runs

What a run gives hangs neither on the readings of the clock nor on the records made so far, apart
from the time it took. So the result of a run is worked out from the results of its parts, without
the state that is passed on between them.

## Main definitions

* `Clock.IsReadable`: every reading of a clock is a time
* `Run.Yields`, `Run.HasResult`: the result of an action has a property, or is a given one, whatever
  the clock and the records are
* `Run.labels`, `Run.mutationsOf`, `Run.extremesOf`, `Run.sectionsOf`: the results of the parts
* `Run.validOf`, `Run.invalidOf`, `Run.extremeOf`: the results of the runs for one category

## Main results

* `Run.sections_hasResult`: the sections of a suite
* `Run.suite_yields`: a suite
* `Run.validOnly_yields`, `Run.invalidOnly_yields`, `Run.extremeOnly_yields`: runs for one category
-/

namespace GrammarSuite

open GrammarSuite.Action

open Json (Misuse Value)

/-- Every reading of a clock is a time, and there is one. -/
def Clock.IsReadable (c : Clock) : Prop := c.readings ≠ [] ∧ ∀ r ∈ c.readings, ∃ x, r = .ok x

theorem Clock.isReadable_ofReadings (x : Float) (xs : List Float) :
    (ofReadings (x :: xs)).IsReadable := by
  refine ⟨List.cons_ne_nil _ _, fun r hr => ?_⟩
  obtain ⟨y, -, rfl⟩ := List.mem_map.1 hr
  exact ⟨y, rfl⟩

/-- A readable clock gives a time, and stays readable. -/
theorem Clock.IsReadable.read {c : Clock} (h : c.IsReadable) :
    ∃ x c', c.read = (.ok x, c') ∧ c'.IsReadable := by
  obtain ⟨readings⟩ := c
  obtain ⟨hne, hall⟩ := h
  rcases readings with _ | ⟨r, _ | ⟨r', rest⟩⟩
  · exact absurd rfl hne
  · obtain ⟨x, hx⟩ := hall r List.mem_cons_self
    exact ⟨x, ⟨[r]⟩, congrArg (·, _) hx, hne, hall⟩
  · obtain ⟨x, hx⟩ := hall r List.mem_cons_self
    exact ⟨x, ⟨r' :: rest⟩, congrArg (·, _) hx, List.cons_ne_nil _ _,
      fun q hq => hall q (List.mem_cons_of_mem _ hq)⟩

namespace Run

variable {σ α β : Type} {x : Run α} {r : Except Failure α} {P : Except Failure α → Prop}
  {Q : Except Failure β → Prop}

/-- With a readable clock, the result of an action has a property, and the clock stays readable. -/
def Yields (x : Run α) (P : Except Failure α → Prop) : Prop :=
  ∀ s, s.clock.IsReadable → P (x.runOn s).1 ∧ (x.runOn s).2.clock.IsReadable

/-- With a readable clock, an action has a result that hangs neither on the clock nor on the
records. -/
def HasResult (x : Run α) (r : Except Failure α) : Prop := Yields x (· = r)

theorem Yields.mono {P' : Except Failure α → Prop} (hx : Yields x P) (h : ∀ r, P r → P' r) :
    Yields x P' :=
  fun s hclock => (hx s hclock).imp_left (h _)

/-- A sequence fails as its first part does, and gives what its second part gives after the first
one. -/
theorem Yields.bind {k : α → Run β} (hx : Yields x P) (hk : ∀ a, P (.ok a) → Yields (k a) Q)
    (he : ∀ f, P (.error f) → Q (.error f)) : Yields (x >>= k) Q := by
  intro s hclock
  obtain ⟨hout, hkept⟩ := hx s hclock
  rw [runOn_bind]
  rcases hrun : x.runOn s with ⟨f | a, t⟩
  · rw [hrun] at hout hkept
    exact ⟨he f hout, hkept⟩
  · rw [hrun] at hout hkept
    exact hk a hout t hkept

/-- A sequence goes on from the result of its first part, if that is known. -/
theorem HasResult.yields_bind {k : α → Run β} (hx : HasResult x r)
    (hk : ∀ a, r = .ok a → Yields (k a) Q) (he : ∀ f, r = .error f → Q (.error f)) :
    Yields (x >>= k) Q :=
  Yields.bind hx (fun a ha => hk a ha.symm) fun f hf => he f hf.symm

theorem hasResult_pure (a : α) : HasResult (pure a) (.ok a) := fun _ h => ⟨rfl, h⟩

theorem hasResult_throw (f : Failure) : HasResult (throw f : Run α) (.error f) :=
  fun _ h => ⟨rfl, h⟩

theorem HasResult.bind {k : α → Run β} {f : α → Except Failure β} (hx : HasResult x r)
    (hk : ∀ a, HasResult (k a) (f a)) : HasResult (x >>= k) (r >>= f) := by
  refine hx.yields_bind ?_ ?_
  · rintro a rfl
    exact hk a
  · rintro f rfl
    rfl

/-- What is recorded before an action makes no difference to its result. -/
theorem HasResult.after {y : Run Unit} {k : Unit → Run α} (hy : HasResult y (.ok ()))
    (hk : HasResult (k ()) r) : HasResult (y >>= k) r :=
  hy.bind fun _ => hk

/-! ## The parts of a run -/

theorem hasResult_record (records : Log.Journal) : HasResult (record records) (.ok ()) :=
  fun _ h => ⟨rfl, h⟩

theorem hasResult_note (channel message : String) : HasResult (note channel message) (.ok ()) :=
  hasResult_record _

theorem hasResult_required (r : Except Misuse α) :
    HasResult (Failure.required r) (r.mapError .misuse) := by
  cases r with
  | ok a => exact hasResult_pure a
  | error m => exact hasResult_throw _

theorem hasResult_derived (e : Engine σ) (x : Action (Engine σ) Failure α) :
    HasResult (derived e x) (x.runOn e).1 :=
  fun _ h => ⟨rfl, h⟩

theorem hasResult_mutated (plan : Plan) (source : σ) (x : Action (Mutator σ) Failure α) :
    HasResult (mutated plan source x) (x.runOn { source, identifier := plan.identifier }).1 :=
  fun _ h => ⟨rfl, h⟩

theorem hasResult_searched (plan : Plan) (g : Grammar) (source : σ)
    (x : Action (Finder σ) Failure α) : HasResult (searched plan g source x)
      (x.runOn { grammar := g, depthBound := plan.maxDepth, source }).1 :=
  fun _ h => ⟨rfl, h⟩

theorem hasResult_engine (plan : Plan) (g : Grammar) (source : σ) :
    HasResult (engine plan g (.ok source)) (Engine.ofBound g plan.maxDepth source) := by
  unfold engine Engine.ofBound
  cases DepthBound.ofValue plan.maxDepth with
  | ok bound => exact hasResult_pure _
  | error f => exact hasResult_throw f

/-- Subjects as cases of a session, and the session after them. -/
def labels (now : Except Misuse Instant) (subjects : List Subject) (session : Session) :
    Except Failure (List TestCase × Session) :=
  let labelled := (Session.classifyAll now subjects).runOn session
  (labelled.1.mapError .misuse).map fun cases => (cases, labelled.2)

theorem hasResult_classified (now : Except Misuse Instant) (subjects : List Subject)
    (session : Session) :
    HasResult (classified now subjects session) (labels now subjects session) := by
  unfold classified labels
  rcases (Session.classifyAll now subjects).runOn session with ⟨m | cases, t⟩
  · exact fun _ h => ⟨rfl, h⟩
  · exact fun _ h => ⟨rfl, h⟩

theorem hasResult_measured (cases : List TestCase) (elapsed : Float) :
    HasResult (measured cases elapsed) ((Metrics.ofCases cases elapsed).mapError .misuse) :=
  (hasResult_record _).bind fun _ => hasResult_required _

/-- **With a readable clock, an action takes a time**, and what follows it is told. -/
theorem HasResult.yields_timed_bind {k : α × Float → Run β} {f : α → Float → Except Failure β}
    (hx : HasResult x r) (hk : ∀ a t, HasResult (k (a, t)) (f a t)) :
    Yields (timed x >>= k) fun result => ∃ t, result = r >>= fun a => f a t := by
  intro s hclock
  -- The clock is read before the action and after it; between, the action has the clock.
  obtain ⟨started, c, hstarted, hc⟩ := hclock.read
  have hstart : Stopwatch.start.runOn { clock := s.clock } =
      (.ok (), { clock := c, startTime := some started, endTime := none }) := by
    simp [Stopwatch.start, runOn_bind, Stopwatch.reading, hstarted]
  obtain ⟨hout, hkept⟩ := hx { s with clock := c } hc
  rcases hrun : x.runOn { s with clock := c } with ⟨result, u⟩
  rw [hrun] at hout hkept
  obtain rfl : result = r := hout
  obtain ⟨stopped, c', hstopped, hc'⟩ := hkept.read
  have hstop : (Stopwatch.stop *> Stopwatch.elapsed).runOn
      { clock := u.clock, startTime := some started, endTime := none } =
      (.ok ((stopped - started) * 1000.0),
        { clock := c', startTime := some started, endTime := some stopped }) := by
    simp [Stopwatch.stop, Stopwatch.elapsed, seqRight_eq_bind, runOn_bind, Stopwatch.reading,
      hstopped]
  have htimed : (timed x).runOn s =
      (result.map fun a => (a, (stopped - started) * 1000.0), { u with clock := c' }) := by
    simp only [timed, runOn_ofFunction, hstart, hrun, hstop]
  rw [runOn_bind, htimed]
  cases result with
  | error e => exact ⟨⟨(stopped - started) * 1000.0, rfl⟩, hc'⟩
  | ok a =>
    obtain ⟨hnext, hreadable⟩ := hk a ((stopped - started) * 1000.0) { u with clock := c' } hc'
    exact ⟨⟨_, hnext⟩, hreadable⟩

/-! ## The sections of a suite -/

section

variable [Random.Source σ]

/-- The mutations of a value. -/
def editsOf (plan : Plan) (source : σ) (v : Value) : Except Failure (List Mutation) :=
  ((Mutator.mutations v plan.invalidCount).runOn { source, identifier := plan.identifier }).1

/-- The mutations of the first of a list of derivations; without a derivation there are none. -/
def mutationsOf (plan : Plan) (source : σ) : List Derivation → Except Failure (List Mutation)
  | d :: _ => editsOf plan source (.text d.text)
  | [] => .ok []

/-- The extreme strings of a plan. -/
def extremesOf (plan : Plan) (g : Grammar) (source : σ) : Except Failure (List Extreme) :=
  ((Finder.findAll plan.extremePerKind).runOn
    { grammar := g, depthBound := plan.maxDepth, source }).1

/-- The sections of a suite as cases of a session, one after the other. -/
def sectionsOf (plan : Plan) (engine : Engine σ) (now : Except Misuse Instant)
    (session : Session) : Except Failure (List Derivation × List TestCase × Session) := do
  let derivations ← ((Engine.derivations plan.validCount).runOn engine).1
  let (valid, session) ← labels now (derivations.map Subject.ofDerivation) session
  let mutations ← mutationsOf plan engine.source derivations
  let (invalid, session) ← labels now (mutations.map Subject.ofMutation) session
  let extremes ← extremesOf plan engine.grammar engine.source
  let (extreme, session) ← labels now (extremes.map Subject.ofExtreme) session
  pure (derivations, valid ++ invalid ++ extreme, session)

/-- A number that is not negative is positive, or nothing is asked for. -/
theorem hasResult_positive {v : Value} (hv : Plan.reaches 0 v) {x : Run (List β)}
    {r : Except Failure (List β)} (hx : HasResult x r) (hzero : v = .int 0 → r = .ok []) :
    HasResult (do if ← Failure.required v.positive then x else pure []) r := by
  obtain ⟨n, rfl, hn⟩ : ∃ n : Int, v = .int n ∧ 0 ≤ n := by
    cases v with
    | int n => exact ⟨n, rfl, by simpa [Plan.reaches] using hv⟩
    | _ => cases hv
  have hpositive : Value.positive (.int n) = .ok (decide (0 < n)) := by
    simp [Value.positive, Value.exceeds, Value.holds, Value.plainHold, Value.number?,
      Json.Relation.decided, Json.Number.less]
  rw [hpositive]
  by_cases hn0 : 0 < n
  · simpa [Failure.required, hn0] using hx
  · obtain rfl : n = 0 := by omega
    rw [hzero rfl]
    exact hasResult_pure []

theorem invalidSection_hasResult {plan : Plan} (hplan : plan.Valid) (source : σ)
    (derivations : List Derivation) : HasResult (invalidSection plan source derivations)
      (mutationsOf plan source derivations) := by
  refine hasResult_positive hplan.2.2.1 ?_ fun hzero => ?_
  · cases derivations with
    | nil => exact (hasResult_record _).bind fun _ => hasResult_pure []
    | cons d rest => exact hasResult_mutated _ _ _
  · cases derivations with
    | nil => rfl
    | cons d rest =>
      rw [mutationsOf, editsOf, hzero]
      rfl

theorem extremeSection_hasResult {plan : Plan} (hplan : plan.Valid) (g : Grammar) (source : σ) :
    HasResult (extremeSection plan g source) (extremesOf plan g source) := by
  refine hasResult_positive hplan.2.2.2.1 (hasResult_searched _ _ _ _) fun hzero => ?_
  rw [extremesOf, hzero]
  rfl

/-- **The sections of a suite** give what their parts give, one after the other. -/
theorem sections_hasResult {plan : Plan} (hplan : plan.Valid) (engine : Engine σ)
    (now : Except Misuse Instant) (session : Session) :
    HasResult (sections plan engine now session) (sectionsOf plan engine now session) := by
  refine (hasResult_derived _ _).bind fun derivations => ?_
  refine (hasResult_classified _ _ _).bind fun (_, session) => ?_
  refine (invalidSection_hasResult hplan _ _).bind fun mutations => ?_
  refine (hasResult_classified _ _ _).bind fun (_, session) => ?_
  refine (extremeSection_hasResult hplan _ _).bind fun extremes => ?_
  exact (hasResult_classified _ _ _).bind fun _ => hasResult_pure _

/-! ## Runs -/

variable {plan : Plan}

/-- **A suite** is made of an engine, the sections and their figures. -/
theorem suite_yields (hplan : plan.Valid) (g : Grammar) (source : σ) (now : Except Misuse Instant)
    (session : Session) :
    Yields (suite plan g (.ok source) now session) fun result => ∃ t, result = (do
      let engine ← Engine.ofBound g plan.maxDepth source
      let (derivations, cases, session) ← sectionsOf plan engine now session.reset
      let metrics ← (Metrics.ofCases cases t).mapError .misuse
      pure ({ grammar := g, cases, metrics, derivations }, session)) := by
  refine HasResult.yields_bind (hasResult_note _ _) (fun _ _ => ?_) fun f hf => by cases hf
  refine (hasResult_engine plan g source).yields_bind (fun engine hengine => ?_) fun f hf => ?_
  · rw [hengine]
    refine (sections_hasResult hplan engine now session.reset).yields_timed_bind fun _ _ => ?_
    refine (hasResult_measured _ _).bind fun _ => ?_
    exact (hasResult_note _ _).bind fun _ => hasResult_pure _
  · rw [hf]
    exact ⟨0.0, rfl⟩

/-- Valid cases alone, with their derivations. -/
def validOf (plan : Plan) (engine : Engine σ) (now : Except Misuse Instant) (count : Value) :
    Except Failure (List Derivation × List TestCase) := do
  let derivations ← ((Engine.derivations count).runOn engine).1
  let (cases, _) ← labels now (derivations.map Subject.ofDerivation) plan.session
  pure (derivations, cases)

theorem validOf_hasResult (plan : Plan) (engine : Engine σ) (now : Except Misuse Instant)
    (count : Value) : HasResult (do
      let derivations ← derived engine (Engine.derivations count)
      let (cases, _) ← classified now (derivations.map Subject.ofDerivation) plan.session
      pure (derivations, cases)) (validOf plan engine now count) := by
  refine (hasResult_derived _ _).bind fun derivations => ?_
  exact (hasResult_classified _ _ _).bind fun _ => hasResult_pure _

/-- **Valid cases alone** are made of an engine, its derivations and their figures. -/
theorem validOnly_yields (plan : Plan) (g : Grammar) (source : σ) (now : Except Misuse Instant)
    (count : Value) :
    Yields (validOnly plan g (.ok source) now count) fun result => ∃ t, result = (do
      let engine ← Engine.ofBound g plan.maxDepth source
      let (derivations, cases) ← validOf plan engine now count
      let metrics ← (Metrics.ofCases cases t).mapError .misuse
      pure { grammar := g, cases, metrics, derivations }) := by
  refine HasResult.yields_bind (hasResult_note _ _) (fun _ _ => ?_) fun f hf => by cases hf
  refine (hasResult_engine plan g source).yields_bind (fun engine hengine => ?_) fun f hf => ?_
  · rw [hengine]
    exact (validOf_hasResult plan engine now count).yields_timed_bind fun _ _ =>
      (hasResult_measured _ _).bind fun _ => hasResult_pure _
  · rw [hf]
    exact ⟨0.0, rfl⟩

/-- A derived string to be mutated, with its derivation. -/
def seedOf (plan : Plan) (g : Grammar) (source : σ) : Except Failure (Value × List Derivation) := do
  let engine ← Engine.ofBound g plan.maxDepth source
  let d ← (Engine.seedDerivation.runOn engine).1
  pure (.text d.text, [d])

theorem seed_hasResult (plan : Plan) (g : Grammar) (source : σ) :
    HasResult (seed plan g (.ok source) .null) (seedOf plan g source) :=
  (hasResult_engine plan g source).bind fun _ => (hasResult_derived _ _).bind fun _ =>
    hasResult_pure _

/-- Invalid cases alone, with the derivation of the string that is mutated. -/
def invalidOf (plan : Plan) (g : Grammar) (source : σ) (now : Except Misuse Instant) :
    Except Failure (List Derivation × List TestCase) := do
  let (edited, derivations) ← seedOf plan g source
  let mutations ← editsOf plan source edited
  let (cases, _) ← labels now (mutations.map Subject.ofMutation) plan.session
  pure (derivations, cases)

theorem invalidOf_hasResult (plan : Plan) (g : Grammar) (source : σ) (now : Except Misuse Instant) :
    HasResult (do
      let (edited, derivations) ← seed plan g (.ok source) .null
      note Log.Channel.single ("Mutating '" ++ edited.display ++ "' into " ++
        plan.invalidCount.display ++ " invalid cases")
      let mutations ← mutated plan source (Mutator.mutations edited plan.invalidCount)
      let (cases, _) ← classified now (mutations.map Subject.ofMutation) plan.session
      pure (derivations, cases)) (invalidOf plan g source now) := by
  refine (seed_hasResult plan g source).bind fun (edited, derivations) => ?_
  refine HasResult.after (hasResult_note _ _) ((hasResult_mutated plan source _).bind fun _ => ?_)
  exact (hasResult_classified _ _ _).bind fun _ => hasResult_pure _

/-- **Invalid cases alone**, of a derived string, are made of a derivation, its mutations and their
figures. -/
theorem invalidOnly_yields (plan : Plan) (g : Grammar) (source : σ) (now : Except Misuse Instant) :
    Yields (invalidOnly plan g (.ok source) now .null) fun result => ∃ t, result = (do
      let (derivations, cases) ← invalidOf plan g source now
      let metrics ← (Metrics.ofCases cases t).mapError .misuse
      pure { grammar := g, cases, metrics, derivations }) :=
  (invalidOf_hasResult plan g source now).yields_timed_bind fun _ _ =>
    (hasResult_measured _ _).bind fun _ => hasResult_pure _

/-- The extreme strings of the given kinds, or of all kinds. -/
def extremesFor (plan : Plan) (g : Grammar) (source : σ) :
    Option (List ExtremeKind) → Except Failure (List Extreme)
  | none => extremesOf plan g source
  | some kinds => ((Finder.findRepeated Log.Channel.single kinds plan.extremePerKind).runOn
      { grammar := g, depthBound := plan.maxDepth, source }).1

/-- Extreme cases alone. -/
def extremeOf (plan : Plan) (g : Grammar) (source : σ) (now : Except Misuse Instant)
    (kinds : Option (List ExtremeKind)) : Except Failure (List TestCase) := do
  let found ← extremesFor plan g source kinds
  let (cases, _) ← labels now (found.map Subject.ofExtreme) plan.session
  pure cases

theorem extremeOf_hasResult (plan : Plan) (g : Grammar) (source : σ) (now : Except Misuse Instant)
    (kinds : Option (List ExtremeKind)) : HasResult (do
      let found ← extremes plan g source kinds
      let (cases, _) ← classified now (found.map Subject.ofExtreme) plan.session
      pure cases) (extremeOf plan g source now kinds) := by
  have hfound : HasResult (extremes plan g source kinds) (extremesFor plan g source kinds) := by
    cases kinds with
    | none => exact hasResult_searched _ _ _ _
    | some kinds => exact hasResult_searched _ _ _ _
  exact hfound.bind fun _ => (hasResult_classified _ _ _).bind fun _ => hasResult_pure _

/-- **Extreme cases alone** are made of a search and its figures. -/
theorem extremeOnly_yields (plan : Plan) (g : Grammar) (source : σ) (now : Except Misuse Instant)
    (kinds : Option (List ExtremeKind)) :
    Yields (extremeOnly plan g (.ok source) now kinds) fun result => ∃ t, result = (do
      let cases ← extremeOf plan g source now kinds
      let metrics ← (Metrics.ofCases cases t).mapError .misuse
      pure { grammar := g, cases, metrics }) :=
  (extremeOf_hasResult plan g source now kinds).yields_timed_bind fun _ _ =>
    HasResult.after (hasResult_note _ _) <| (hasResult_measured _ _).bind fun _ => hasResult_pure _

end

end Run

end GrammarSuite
