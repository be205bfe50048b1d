import GrammarSuite.Proofs.Run.Sections

/-!
# The shape of a suite

A suite has its valid, its invalid and its extreme cases one after the other, numbered from one. The
valid cases are the derivations, the invalid ones were made of the first of them, and there are
between three and six extreme ones for each one asked for of a kind.

For a grammar that was read, a suite fails only where the grammar lacks productions. Apart from that
its numbers may be out of range: the number of an identifier may have thousands of digits, and an
average may be no double. No suite that fits into a memory has so many cases, or cases so long.

## Main definitions

* `Outcome.ofCategory`: the cases of a category
* `Outcome.HasShape`: the shape of a suite
* `Run.IsOutOfRange`: the failures of numbers that are out of range

## Main results

* `Run.ofCategory_eq`: the cases of the categories
* `Run.suite_hasShape`: a suite of a grammar that was read
-/

namespace GrammarSuite

open GrammarSuite.Action GrammarSuite.Random

open Json (Misuse Value)

/-- The cases of a category. -/
def Outcome.ofCategory (o : Outcome) (category : Category) : List TestCase :=
  o.cases.filter (·.category = category)

/-- The shape of a suite that was asked for by a plan. -/
structure Outcome.HasShape (plan : Plan) (o : Outcome) : Prop where
  /-- The cases of the categories come one after the other. -/
  sections : o.cases = o.ofCategory .valid ++ o.ofCategory .invalid ++ o.ofCategory .extreme
  /-- An identifier consists of a category and a number. -/
  ids : ∀ c ∈ o.cases, c.id = .text (c.category.name ++ "_" ++ Instant.padded 4 c.number)
  numbers : o.cases.map TestCase.number = List.range' 1 o.cases.length
  /-- The valid cases are the derivations. -/
  contents : (o.ofCategory .valid).map TestCase.content = o.derivations.map fun d => .text d.text
  valid : (o.ofCategory .valid).length ≤ plan.validCount.toInt
  invalid : (o.ofCategory .invalid).length =
    if o.derivations = [] then 0 else plan.invalidCount.toInt
  /-- The invalid cases remember the first derivation. -/
  originals : ∀ d ∈ o.derivations.head?, ∀ c ∈ o.ofCategory .invalid,
    c.metadata.get? "original" = some (.text d.text)
  extreme : 3 * plan.extremePerKind.toInt ≤ (o.ofCategory .extreme).length ∧
    (o.ofCategory .extreme).length ≤ 6 * plan.extremePerKind.toInt
  /-- The figures count the cases. -/
  counts : o.metrics.totalCases = o.cases.length ∧
    o.metrics.validCases = (o.ofCategory .valid).length ∧
    o.metrics.invalidCases = (o.ofCategory .invalid).length ∧
    o.metrics.extremeCases = (o.ofCategory .extreme).length

/-- An invalid case remembers the string that was edited. -/
theorem Subject.get?_original (m : Mutation) (spelling : String) (created : Instant) (n : Nat) :
    ((ofMutation m).case spelling created n).metadata.get? "original" =
      some (.text m.unedited) := by
  refine TestCase.get?_annotateAll ?_ (List.mem_append_left _ (by simp [ofMutation, invalid]))
  have hnames : ((ofMutation m).allEntries spelling).map Prod.fst =
      ["generation_method", "mutation_kind", "original", "length", "token_count", "open_parens",
        "close_parens", "parens_balanced", "operators", "total_operators",
        "identifier_count"] := rfl
  rw [hnames]
  decide

namespace Run

variable {σ : Type} [Source σ] {plan : Plan} {engine : Engine σ} {ds : List Derivation}
  {ms : List Mutation} {es : List Extreme} {spelling : String} {created : Instant}

/-- **The cases of the categories** are those of the sections. -/
theorem ofCategory_eq {o : Outcome} (h : o.cases = casesOf spelling created ds ms es) :
    o.ofCategory .valid = Subject.casesAfter spelling created 0 (ds.map Subject.ofDerivation) ∧
      o.ofCategory .invalid =
        Subject.casesAfter spelling created ds.length (ms.map Subject.ofMutation) ∧
      o.ofCategory .extreme =
        Subject.casesAfter spelling created (ds.length + ms.length)
          (es.map Subject.ofExtreme) := by
  have hvalid : ∀ s ∈ ds.map Subject.ofDerivation, s.category = .valid := by
    simp [Subject.ofDerivation, Subject.valid]
  have hinvalid : ∀ s ∈ ms.map Subject.ofMutation, s.category = .invalid := by
    simp [Subject.ofMutation, Subject.invalid]
  have hextreme : ∀ s ∈ es.map Subject.ofExtreme, s.category = .extreme := by
    simp [Subject.ofExtreme]
  simp only [Outcome.ofCategory, h, casesOf_eq, List.filter_append,
    Subject.filter_casesAfter hvalid, Subject.filter_casesAfter hinvalid,
    Subject.filter_casesAfter hextreme]
  simp

/-- The failures of numbers that are out of range: so many cases that the number of an identifier is
too long, or a case of the sections with a number that is near the greatest double. -/
def IsOutOfRange (plan : Plan) (g : Grammar) (source : σ) (created : Instant) (session : Session)
    (s : RunState) (f : Failure) : Prop :=
  (f = .misuse .longNumber ∧ (Value.unwritable : Int) ≤
    plan.validCount.toInt + plan.invalidCount.toInt + 6 * plan.extremePerKind.toInt) ∨
  (f = .misuse .quotientBeyondDoubles ∧
    ∃ engine ds cases session' s', Engine.ofBound g plan.maxDepth source = .ok engine ∧
      (sections plan engine (.ok created) session.reset).runOn s = (.ok (ds, cases, session'), s') ∧
      ∃ c ∈ cases, c.Exceeds)

section

variable [LawfulSource σ] {text : String} {name : Value} {g : Grammar} {source : σ}
  {session session' : Session} {s : RunState}

/-- The first string of a grammar that was read has tokens, so that it is edited as often as the plan
says; without a string nothing is edited. -/
theorem mutations_of_grammar {source : σ} (hg : Grammar.ofText text name = .ok g)
    (hplan : plan.Valid) (hgenerates : ∀ d ∈ ds, g.Generates d.text)
    (hmutated : mutationsOf plan source ds = .ok ms) :
    (ms.length : Int) = (if ds = [] then 0 else plan.invalidCount.toInt) ∧
      ∀ d ∈ ds.head?, ∀ m ∈ ms, m.unedited = d.text := by
  cases ds with
  | nil =>
    obtain rfl : [] = ms := Except.ok.inj hmutated
    simp
  | cons d ds =>
    have htoken := Grammar.tokenize_ne_nil hg (hgenerates d List.mem_cons_self)
    obtain ⟨ms', hms', hi, hunedited⟩ := exists_mutationsOf hplan source htoken ds
    obtain rfl := Except.ok.inj (hms'.symm.trans hmutated)
    refine ⟨by rw [hi, if_neg (List.cons_ne_nil d ds)], fun d' hd' => ?_⟩
    obtain rfl : d = d' := by simpa using hd'
    exact hunedited

/-- What a suite of a grammar that was read gives has the shape. -/
theorem hasShape_of_suite {o : Outcome} (hg : Grammar.ofText text name = .ok g)
    (hplan : plan.Valid) (hsession : session.identifier = .text spelling)
    (hclock : s.clock.IsReadable)
    (h : ((suite plan g (.ok source) (.ok created) session).runOn s).1 = .ok (o, session')) :
    o.HasShape plan := by
  obtain ⟨engine, ds, ms, es, t, hengine, ⟨hderived, hmutated, hsearched⟩, -, hds, hcases,
    hmetrics⟩ := suite_eq_ok hplan hsession hclock h
  obtain ⟨hvalid, hinvalid, hextreme⟩ := ofCategory_eq hcases
  obtain ⟨hlength, hgenerates⟩ := length_derivations hplan hderived
  rw [(Engine.eq_of_ofBound hengine).1] at hgenerates
  obtain ⟨hmany, hunedited⟩ := mutations_of_grammar hg hplan hgenerates hmutated
  have hcounted : ∀ c ∈ o.cases, c.IsCounted := by
    rw [hcases]
    exact casesOf_isCounted (isMeasured_of_extremesOf hplan hsearched)
  have hcounts : Metrics.Counts o.cases o.metrics := by
    have hfigure := Metrics.ofCases_isFigure hcounted t
    rw [hmetrics] at hfigure
    exact hfigure
  constructor
  case sections => rw [hvalid, hinvalid, hextreme, hcases, casesOf_eq]
  case ids =>
    intro c hc
    rw [hcases] at hc
    obtain ⟨s, -, k, rfl⟩ := Subject.exists_of_mem_casesAfter hc
    rw [Subject.id_case, Subject.number_case, Subject.category_case]
  case numbers =>
    rw [hcases, casesOf, Subject.map_number_casesAfter, Subject.length_casesAfter]
  case contents =>
    rw [hvalid, Subject.map_content_casesAfter, hds, List.map_map]
    rfl
  case valid =>
    rw [hvalid, Subject.length_casesAfter, List.length_map]
    exact hlength
  case invalid =>
    rw [hinvalid, Subject.length_casesAfter, List.length_map, hds]
    exact hmany
  case originals =>
    intro d hd c hc
    rw [hinvalid] at hc
    obtain ⟨subject, hsubject, k, rfl⟩ := Subject.exists_of_mem_casesAfter hc
    obtain ⟨m, hm, rfl⟩ := List.mem_map.1 hsubject
    rw [Subject.get?_original, hunedited d (hds ▸ hd) m hm]
  case extreme =>
    rw [hextreme, Subject.length_casesAfter, List.length_map]
    exact length_extremesOf hplan hsearched
  case counts =>
    obtain ⟨htotal, hv, hi, he⟩ := hcounts
    simp only [Outcome.ofCategory, ← List.countP_eq_length_filter]
    exact ⟨htotal, hv, hi, he⟩

/-- A suite of a grammar that was read fails where the grammar lacks productions, or because of a
number that is out of range. -/
theorem isLack_or_isOutOfRange {f : Failure} (hg : Grammar.ofText text name = .ok g)
    (hplan : plan.Valid) (hsession : session.identifier = .text spelling)
    (hclock : s.clock.IsReadable)
    (h : ((suite plan g (.ok source) (.ok created) session).runOn s).1 = .error f) :
    g.IsLack f ∨ IsOutOfRange plan g source created session s f := by
  obtain ⟨engine, hengine, hfailed⟩ := suite_eq_error hplan hsession hclock h
  rcases hfailed with hfailed | ⟨ds, cases, session', hsections, hf, hexceeds⟩
  · rw [reset_eq hsession] at hfailed
    have htoken : ∀ text, engine.grammar.Generates text → Token.tokenize text ≠ [] := by
      rw [(Engine.eq_of_ofBound hengine).1]
      exact fun _ => Grammar.tokenize_ne_nil hg
    rw [← (Engine.eq_of_ofBound hengine).1]
    exact (sectionsOf_eq_error hplan htoken hfailed).imp_right .inl
  · obtain ⟨hresult, -⟩ := sections_hasResult hplan engine (.ok created) session.reset s hclock
    exact .inr (.inr ⟨hf, engine, ds, cases, session', _, hengine,
      Prod.ext (hresult.trans hsections) rfl, hexceeds⟩)

end

end Run

end GrammarSuite
