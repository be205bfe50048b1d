import GrammarSuite.Proofs.Derivation.Minimal
import GrammarSuite.Proofs.Extreme.Measures
import GrammarSuite.Proofs.Metrics.Account

/-!
# The depths of extreme strings

The two kinds that go by depth tell the length of the trace of a derivation, the first form included,
as valid cases do. So the depths of a suite whose extreme strings are of these kinds are all lengths of
traces, and its greatest and its average depth are taken over them.

The other kinds tell a depth of zero, also the two that take their text from a derivation. No trace is
as short as that.

## Main definitions

* `Grammar.IsTraced`: a derivation of a grammar within some bound
* `Origin.Traces`, `Origin.IsTold`: the derivation behind a depth, and the origins that have one

## Main results

* `Finder.exists_trace_of_find`: the kinds that go by depth tell the length of a trace
* `Finder.depth_of_trial`: the others tell a depth of zero for their trials
* `Metrics.depths_of_told`: the depths of a suite are lengths of traces
* `Finder.depths_are_trace_lengths`: what the depths of extreme strings tell
-/

namespace GrammarSuite

open GrammarSuite.Action GrammarSuite.Random

open Json (Value)

/-- A derivation of a grammar within some bound, with the text of its trace. -/
def Grammar.IsTraced (g : Grammar) (d : Derivation) : Prop :=
  ∃ bound, g.IsDerivation bound d.steps ∧ d = Engine.finish d.steps

/-- The minimal derivation is that of a trace, which is one form longer than it takes steps. -/
theorem Grammar.exists_trace_of_minimal {g : Grammar} {limit : Int} {text : String} {n : Nat}
    (hstart : g.start.isNonterminal = true)
    (h : g.minimalDerivation (.int limit) = .ok (text, n)) :
    ∃ d, g.IsTraced d ∧ d.text = text ∧ d.depth = n + 1 := by
  obtain ⟨yield, htree, -, rfl⟩ := minimalDerivation_eq_ok_iff.1 h
  -- The steps along the tree are within a bound that allows just as many.
  obtain ⟨steps, hleads, hlength, -, last, hlast, hyield⟩ := htree.exists_leads n 0 none
  refine ⟨Engine.finish (⟨[g.start], none⟩ :: steps),
    ⟨n, hleads.isDerivation hstart hlength.le, rfl⟩, ?_, ?_⟩
  · rw [Engine.finish_text hlast, hyield, terminalText_map_terminal]
  · rw [← hlength]
    rfl

namespace Finder

variable {σ : Type} [Source σ] {kind : ExtremeKind} {t : Trials} {f f' : Finder σ} {x : Extreme}

/-- What is found as the shallowest string is the minimal derivation. -/
theorem minimal_of_find (hrun : (find .minDepth).runOn f = (.ok x, f')) :
    ∃ text n, f.grammar.minimalDerivation Grammar.minimalStepLimit = .ok (text, n) ∧
      x.text = text ∧ x.depth = .int (n + 1 : Nat) := by
  simp only [find, shallowest, runOn_bind, runOn_get] at hrun
  rcases hminimal : f.grammar.minimalDerivation Grammar.minimalStepLimit with e | ⟨text, n⟩
  · simp [hminimal] at hrun
  · rw [hminimal] at hrun
    obtain rfl := Except.ok.inj (Prod.mk.inj hrun).1
    exact ⟨text, n, rfl, rfl, rfl⟩

section

variable [LawfulSource σ] {B : Nat}

/-- **The kinds that go by depth tell the length of a trace.** -/
theorem exists_trace_of_find (hB : 0 < B) (hbound : f.depthBound = .int B)
    (hstart : f.grammar.start.isNonterminal = true) (hkind : kind.measure = .depth)
    (hrun : (find kind).runOn f = (.ok x, f')) :
    ∃ d, f.grammar.IsTraced d ∧ x.text = d.text ∧ x.depth = .int d.depth := by
  cases kind with
  | maxDepth =>
    obtain ⟨-, -, -, -, -, ⟨d, -, hderivation, hfinish, hx⟩ | ⟨-, hother⟩⟩ :=
      derivation_of_find hB hbound hstart rfl hrun
    · have hvalue := hx.value
      rw [Extreme.value, hx.kind] at hvalue
      exact ⟨d, ⟨_, hderivation, hfinish⟩, hx.text, hvalue⟩
    · cases hother
  | minDepth =>
    obtain ⟨text, n, hminimal, htext, hdepth⟩ := minimal_of_find hrun
    obtain ⟨d, hd, hdtext, hddepth⟩ := Grammar.exists_trace_of_minimal hstart hminimal
    exact ⟨d, hd, htext.trans hdtext.symm, by rw [hdepth, hddepth]⟩
  | maxComplexity | longExpression | shortExpression | maxNesting => cases hkind

/-- **The others tell a depth of zero.** Two of them are searched by trials, and their text is that of a
trace, if a trial succeeds. -/
theorem depth_of_trial (hB : 0 < B) (hbound : f.depthBound = .int B)
    (hstart : f.grammar.start.isNonterminal = true) (ht : kind.trials? = some t)
    (hkind : kind.measure ≠ .depth) (hrun : (find kind).runOn f = (.ok x, f')) :
    x.depth = .int 0 ∧
      ∃ e ds e', Engine.ofBound f.grammar (.int (t.factor * B : Nat)) f.source = .ok e ∧
        (Engine.attempts t.number).runOn e = (.ok ds, e') ∧
        ((∃ d, some d ∈ ds ∧ f.grammar.IsTraced d ∧ x.text = d.text ∧ 2 ≤ d.depth) ∨
          (∀ d, some d ∉ ds) ∧ kind = .maxComplexity) := by
  refine ⟨(find_givesOnly kind f x f' hrun).depth_eq_zero hkind, ?_⟩
  obtain ⟨e, ds, e', he, hattempts, ⟨d, hmem, hderivation, hfinish, hx⟩ | hnone⟩ :=
    derivation_of_find hB hbound hstart ht hrun
  · exact ⟨e, ds, e', he, hattempts,
      .inl ⟨d, hmem, ⟨_, hderivation, hfinish⟩, hx.text, hderivation.two_le_length⟩⟩
  · exact ⟨e, ds, e', he, hattempts, .inr hnone⟩

end

end Finder

/-! ## The depths of cases -/

namespace Origin

/-- An origin has the text of a derivation, and the length of its trace as its depth. -/
structure Traces (o : Origin) (d : Derivation) : Prop where
  traced : ∃ g : Grammar, g.IsTraced d
  text : o.text = d.text
  depth : o.depth? = some (d.depth : Int)

/-- What a suite labels, if its extreme strings are of the kinds that go by depth: the derivations that
engines return, mutations, and strings that are found. -/
inductive IsTold (σ : Type) [Source σ] : Origin → Prop
  | derivation {e e' : Engine σ} {D : Nat} {d : Derivation} {description : Value}
    (hD : DepthBound.ofValue (.int D) = .ok e.bound)
    (hstart : e.grammar.start.isNonterminal = true)
    (h : Engine.derive.runOn e = (.ok d, e')) : IsTold σ (.derivation d description)
  | mutation (m : Mutation) : IsTold σ (.mutation m)
  | extreme {f f' : Finder σ} {B : Nat} {kind : ExtremeKind} {x : Extreme} (hB : 0 < B)
    (hbound : f.depthBound = .int B) (hstart : f.grammar.start.isNonterminal = true)
    (hkind : kind.measure = .depth) (h : (Finder.find kind).runOn f = (.ok x, f'))
    (hmeasured : x.IsMeasured) : IsTold σ (.extreme x hmeasured)

variable {σ : Type} [Source σ] [LawfulSource σ]

/-- An origin that has a depth has a derivation behind it. -/
theorem IsTold.exists_traces {o : Origin} (ho : o.IsTold σ) (h : o.depth?.isSome = true) :
    ∃ d, o.Traces d := by
  cases ho with
  | @derivation e e' D d description hD hstart hderive =>
    exact ⟨d, ⟨e.grammar, D, Engine.traced_of_derive hD hstart hderive⟩, rfl, rfl⟩
  | mutation m => cases h
  | @extreme f f' B kind x hB hbound hstart hkind hfind hmeasured =>
    obtain ⟨d, hd, htext, hdepth⟩ := Finder.exists_trace_of_find hB hbound hstart hkind hfind
    exact ⟨d, ⟨f.grammar, hd⟩, htext, by rw [depth?, hdepth]⟩

/-- Origins have derivations behind them, one for each that has a depth. -/
theorem exists_forall₂_traces {os : List Origin} (h : ∀ o ∈ os, o.IsTold σ) :
    ∃ ds, List.Forall₂ Traces (os.filter (·.depth?.isSome)) ds ∧
      os.filterMap depth? = ds.map fun d => (d.depth : Int) := by
  induction os with
  | nil => exact ⟨[], .nil, rfl⟩
  | cons o os ih =>
    rw [List.forall_mem_cons] at h
    obtain ⟨ds, hds, hdepths⟩ := ih h.2
    -- An origin without a depth is dropped on both sides.
    rcases hdepth : o.depth? with _ | n
    · refine ⟨ds, ?_, ?_⟩
      · rwa [List.filter_cons_of_neg (by simp [hdepth])]
      · rw [List.filterMap_cons_none hdepth, hdepths]
    · obtain ⟨d, hd⟩ := h.1.exists_traces (by rw [hdepth]; rfl)
      refine ⟨d :: ds, ?_, ?_⟩
      · rw [List.filter_cons_of_pos (by simp [hdepth])]
        exact .cons hd hds
      · rw [List.filterMap_cons_some hd.depth, hdepths, List.map_cons]

end Origin

/-- **The depths of a suite are lengths of traces.** The greatest and the average depth are those of the
derivations behind its cases, if all of these tell the length of a trace. -/
theorem Metrics.depths_of_told {σ : Type} [Source σ] [LawfulSource σ] {ls : List Labelled}
    (hls : ∀ l ∈ ls, l.origin.IsTold σ) {elapsed : Float} {m : Metrics}
    (hm : ofCases (ls.map Labelled.case) elapsed = .ok m) :
    ∃ ds : List Derivation,
      List.Forall₂ Origin.Traces ((ls.map Labelled.origin).filter (·.depth?.isSome)) ds ∧
      greatest (ds.map fun d => .int d.depth) = .ok m.maxDepth ∧
      averageOf (ds.map fun d => .int d.depth) = .ok m.averageDepth := by
  have horigins : ∀ o ∈ ls.map Labelled.origin, o.IsTold σ := by
    intro o ho
    obtain ⟨l, hl, rfl⟩ := List.mem_map.1 ho
    exact hls l hl
  obtain ⟨ds, hds, hdepths⟩ := Origin.exists_forall₂_traces horigins
  obtain ⟨hmax, haverage⟩ := depths_of_ofCases hm
  have hentries : entries "depth" (ls.map Labelled.case) =
      ds.map fun d => .int d.depth := by
    rw [List.filterMap_map] at hdepths
    rw [entries_depth]
    exact (congrArg (List.map Value.int) hdepths).trans (by rw [List.map_map]; rfl)
  rw [hentries] at hmax haverage
  exact ⟨ds, hds, hmax, haverage⟩

namespace Finder

variable {σ : Type} [Source σ] [LawfulSource σ] {kind : ExtremeKind} {f f' : Finder σ} {x : Extreme}

/-- **What the depths of extreme strings tell.** A string of a kind that goes by depth tells the length
of the trace of a derivation with its text, as a case that is made of it does, and as the valid case of
the derivation does; and the greatest and the average depth of suites with such strings are taken over
lengths of traces. The other kinds that take their text from a trial tell a depth of zero, although the
trace of the trial has two forms at least. -/
theorem depths_are_trace_lengths {B : Nat} (hB : 0 < B) (hbound : f.depthBound = .int B)
    (hstart : f.grammar.start.isNonterminal = true)
    (hrun : (find kind).runOn f = (.ok x, f')) :
    (kind.measure = .depth → ∃ d, f.grammar.IsTraced d ∧ x.text = d.text ∧ x.depth = .int d.depth ∧
      (∀ c : TestCase, c.IsOf (.ofExtreme x) →
        c.metadata.get? "depth" = some (.int d.depth)) ∧
      ∀ c : TestCase, c.IsOf (.ofDerivation d) →
        c.metadata.get? "depth" = some (.int d.depth)) ∧
    (∀ t, kind.trials? = some t → kind.measure ≠ .depth → x.depth = .int 0 ∧
      ∃ e ds e', Engine.ofBound f.grammar (.int (t.factor * B : Nat)) f.source = .ok e ∧
        (Engine.attempts t.number).runOn e = (.ok ds, e') ∧
        ((∃ d, some d ∈ ds ∧ f.grammar.IsTraced d ∧ x.text = d.text ∧ 2 ≤ d.depth) ∨
          (∀ d, some d ∉ ds) ∧ kind = .maxComplexity)) ∧
    ∀ ls : List Labelled, (∀ l ∈ ls, l.origin.IsTold σ) → ∀ elapsed m,
      Metrics.ofCases (ls.map Labelled.case) elapsed = .ok m →
        ∃ ds : List Derivation,
          List.Forall₂ Origin.Traces ((ls.map Labelled.origin).filter (·.depth?.isSome)) ds ∧
          Metrics.greatest (ds.map fun d => .int d.depth) = .ok m.maxDepth ∧
          Metrics.averageOf (ds.map fun d => .int d.depth) = .ok m.averageDepth := by
  refine ⟨?_, ?_, ?_⟩
  · intro hkind
    obtain ⟨d, hd, htext, hdepth⟩ := exists_trace_of_find hB hbound hstart hkind hrun
    have hmeasured := (find_givesOnly kind f x f' hrun).isMeasured
    refine ⟨d, hd, htext, hdepth, ?_, ?_⟩
    · intro c hc
      rw [← hdepth]
      exact Extreme.get?_measure hmeasured hc .depth
    · intro c hc
      exact (Labelled.mk (.derivation d) c hc).get?_depth
  · intro t ht hkind
    exact depth_of_trial hB hbound hstart ht hkind hrun
  · intro ls hls elapsed m hm
    exact Metrics.depths_of_told hls hm

/-- Of repeated letters, the shallowest string tells the two forms of its trace. The longest one tells
no depth, although it has the text of a trace, too. -/
theorem letters_tell_depths :
    0 < 6 ∧ letterFinder.depthBound = .int (6 : Nat) ∧
      letterFinder.grammar.start.isNonterminal = true ∧
      (∃ x f', (find .minDepth).runOn letterFinder = (.ok x, f') ∧ x.depth = .int (2 : Nat) ∧
        ∃ d, letterFinder.grammar.IsTraced d ∧ x.text = d.text ∧ x.depth = .int d.depth) ∧
      ∃ x f', (find .longExpression).runOn letterFinder = (.ok x, f') ∧ x.depth = .int 0 ∧
        ∃ d, letterFinder.grammar.IsTraced d ∧ x.text = d.text ∧ 2 ≤ d.depth := by
  have hminimal : letterFinder.grammar.minimalDerivation (.int 1) = .ok ("a", 1) := rfl
  obtain ⟨x, hshallow, -, hdepth⟩ := Grammar.find_minDepth hminimal (by decide) (f := letterFinder) rfl
  have hany : ((find .longExpression).runOn letterFinder).1.toOption.any (fun _ => true) = true := by
    decide +kernel
  obtain ⟨y, hsome, -⟩ := exists_eq_ok_of_any hany
  obtain ⟨_, f', hlong, rfl, -⟩ := Returns.of_runOn hsome
  obtain ⟨hshallowest, -⟩ := depths_are_trace_lengths (by decide) rfl rfl hshallow
  obtain ⟨-, hlongest, -⟩ := depths_are_trace_lengths (by decide) rfl rfl hlong
  obtain ⟨d, hd, htext, hxdepth, -⟩ := hshallowest rfl
  -- The longest string has no text for when no trial succeeds.
  obtain ⟨hydepth, -, -, -, -, -, ⟨d', -, hd', htext', hforms⟩ | ⟨-, hother⟩⟩ :=
    hlongest _ rfl (by decide)
  · exact ⟨by decide, rfl, rfl, ⟨x, _, hshallow, hdepth, d, hd, htext, hxdepth⟩,
      _, f', hlong, hydepth, d', hd', htext', hforms⟩
  · cases hother

end Finder

end GrammarSuite
