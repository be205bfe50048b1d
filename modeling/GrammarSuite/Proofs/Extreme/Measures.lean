import GrammarSuite.Proofs.Extreme.Best
import GrammarSuite.Proofs.Metrics.Entries

/-!
# The measures of extreme strings

The measures of an extreme string are those of its tokens, also where a search gives a measure that it
already has. Labelled, the string tells the same numbers twice, as its own measures and as figures of
its text, and the two agree: the number of its operators is the sum over the single operators, and the
number of its terminals is the number of its tokens.

## Main definitions

* `TestCase.IsOf`: a case that a session makes of a subject
* `Extreme.IsScanned`: the measures of a string are those of its tokens
* `Extreme.IsReportedIn`: a case reports the measures of a string

## Main results

* `Token.countOperators_eq_sum`: operators counted together and one by one
* `Extreme.IsFound.isScanned`: what is found is measured on its tokens
* `Extreme.IsScanned.isReportedIn`: the case of a string reports its measures
* `Finder.found_is_reported`: what is found is measured on its tokens, and its case reports this
-/

namespace GrammarSuite

open GrammarSuite.Action GrammarSuite.Random

open Json (Value)

/-- Operators that are counted together are the sum of those that are counted one by one. -/
theorem Token.countOperators_eq_sum (tokens : List String) :
    countOperators tokens = ((histogram tokens).map Prod.snd).sum := by
  have hdifferent : operators.Nodup := by decide
  rw [histogram, List.map_map]
  exact (sum_map_count hdifferent tokens).symm

/-- A case that a session makes of a subject, in whatever state and at whatever moment. -/
def TestCase.IsOf (c : TestCase) (s : Subject) : Prop :=
  ∃ now session session', (Session.classify now s).runOn session = (.ok c, session')

namespace Extreme

/-- The measures of a string are those of its tokens. -/
structure IsScanned (x : Extreme) : Prop where
  operatorCount : x.operatorCount = .int (Token.countOperators (Token.tokenize x.text))
  terminalCount : x.terminalCount = .int (Token.tokenize x.text).length
  nestingLevel : x.nestingLevel = .int (Token.nestingDepth (Token.tokenize x.text))

/-- A string that is found is measured on its tokens: the measures that a search gives are the ones
that it compared, and those of the fixed expressions are theirs. -/
theorem IsFound.isScanned {kind : ExtremeKind} {x : Extreme} (h : x.IsFound kind) :
    x.IsScanned := by
  cases h with
  | maxDepth d => exact ⟨rfl, rfl, rfl⟩
  | minDepth text steps => exact ⟨rfl, rfl, rfl⟩
  | maxComplexity h => exact ⟨by rw [h]; rfl, rfl, rfl⟩
  | longExpression h => exact ⟨rfl, by rw [h]; rfl, rfl⟩
  | shortExpression =>
    have hlength : (Token.tokenize Token.defaultIdentifier).length = 1 := by decide
    exact ⟨rfl, congrArg (fun n : Nat => Value.int n) hlength.symm, rfl⟩
  | maxNesting =>
    have hdepth : Token.nestingDepth (Token.tokenize (nested nestingLevels)) = nestingLevels := by
      decide
    exact ⟨rfl, rfl, congrArg Value.int hdepth.symm⟩

/-- A case reports the measures of a string among its entries, where they agree with the figures of
its text. -/
structure IsReportedIn (x : Extreme) (c : TestCase) : Prop where
  content : c.content = .text x.text
  /-- The operators are counted as they are in the entry of the single operators. -/
  operators : ∃ counts : List (String × Nat),
    c.metadata.get? "operators" = some (.object (counts.map fun (op, n) => (op, .int n))) ∧
    c.metadata.get? "total_operators" = some (.int (counts.map Prod.snd).sum) ∧
    c.metadata.get? "operator_count" = some (.int (counts.map Prod.snd).sum)
  /-- The terminals are counted as the tokens are. -/
  terminals : c.metadata.get? "terminal_count" = c.metadata.get? "token_count" ∧
    c.metadata.get? "token_count" = some (.int (Token.tokenize x.text).length)
  /-- The measure in which the string is extreme is there under its name. -/
  metric : c.metadata.get? "metric" = some (.text x.kind.measure.name) ∧
    c.metadata.get? x.kind.measure.name = some x.value

/-- The measures of a string are entries of its case. -/
theorem get?_measure {x : Extreme} (h : x.IsMeasured) {c : TestCase}
    (hmade : (Origin.extreme x h).Makes c) (m : Measure) :
    c.metadata.get? m.name = some (x.valueOf m) := by
  refine (Labelled.mk (.extreme x h) c hmade).get?_of_origin ?_
  have hmem : (m.name, x.valueOf m) ∈ x.measures :=
    List.mem_map.2 ⟨m, by cases m <;> simp, rfl⟩
  simp [Origin.subject, Subject.ofExtreme, hmem]

/-- **The case of a string reports its measures**, if they are those of its tokens. -/
theorem IsScanned.isReportedIn {x : Extreme} (hx : x.IsScanned) (h : x.IsMeasured) {c : TestCase}
    (hmade : (Origin.extreme x h).Makes c) : x.IsReportedIn c := by
  let l : Labelled := ⟨.extreme x h, c, hmade⟩
  have htokens : l.tokens = Token.tokenize x.text := l.tokens_eq
  constructor
  case content => exact l.content_case
  case operators =>
    refine ⟨Token.histogram (Token.tokenize x.text), ?_, ?_, ?_⟩
    · rw [Token.histogram, List.map_map, ← htokens]
      exact l.get?_operators
    · rw [Token.histogram, List.map_map, ← htokens]
      exact l.get?_totalOperators
    · -- The measure counts the operators together, and the entry one by one.
      rw [← Token.countOperators_eq_sum, ← hx.operatorCount]
      exact get?_measure h hmade .operatorCount
  case terminals =>
    have hcount : c.metadata.get? "token_count" = some (.int (Token.tokenize x.text).length) := by
      rw [← htokens]
      exact l.get?_tokenCount
    refine ⟨?_, hcount⟩
    rw [hcount, ← hx.terminalCount]
    exact get?_measure h hmade .terminalCount
  case metric =>
    refine ⟨l.get?_of_origin ?_, get?_measure h hmade _⟩
    simp [l, Origin.subject, Subject.ofExtreme]

end Extreme

namespace Finder

variable {σ : Type} [Source σ] {kind : ExtremeKind} {f f' : Finder σ} {x : Extreme}

/-- **What is found is measured on its tokens, and its case reports this.** A session makes a case of
what a search finds while its numbers can be written, and whatever case a session makes of it reports
measures that agree with each other. -/
theorem found_is_reported (h : (find kind).runOn f = (.ok x, f')) :
    x.IsScanned ∧
      (∀ (spelling : String) (created : Instant) (n : Nat), n + 1 < Value.unwritable →
        ∃ c, (Session.classify (.ok created) (.ofExtreme x)).runOn ⟨.text spelling, .int n⟩ =
          (.ok c, ⟨.text spelling, .int (n + 1 : Nat)⟩)) ∧
      ∀ c : TestCase, c.IsOf (.ofExtreme x) → x.IsReportedIn c := by
  have hfound := find_givesOnly kind f x f' h
  refine ⟨hfound.isScanned, ?_, ?_⟩
  · intro spelling created n hn
    rw [Session.classify_of_isProper (Subject.ofExtreme_isProper hfound.isMeasured), if_pos hn]
    exact ⟨_, rfl⟩
  · intro c hc
    exact hfound.isScanned.isReportedIn hfound.isMeasured hc

/-- The first case of a new session reports five levels of parentheses, which are counted as five. -/
theorem nesting_is_reported :
    let created : Instant :=
      { year := 2024, month := 1, day := 1, hour := 0, minute := 0, second := 0 }
    (find .maxNesting).runOn letterFinder = (.ok Extreme.deepestNesting, letterFinder) ∧
      Extreme.deepestNesting.IsScanned ∧
      ∃ c, (Session.classify (.ok created) (.ofExtreme Extreme.deepestNesting)).runOn
          ⟨.text Token.defaultIdentifier, .int (0 : Nat)⟩ =
            (.ok c, ⟨.text Token.defaultIdentifier, .int (0 + 1 : Nat)⟩) ∧
        Extreme.deepestNesting.IsReportedIn c := by
  intro created
  have hfind : (find .maxNesting).runOn letterFinder = (.ok Extreme.deepestNesting, letterFinder) :=
    rfl
  obtain ⟨hscanned, hclassified, hreported⟩ := found_is_reported hfind
  obtain ⟨c, hc⟩ := hclassified Token.defaultIdentifier created 0 Value.one_lt_unwritable
  exact ⟨hfind, hscanned, c, hc, hreported c ⟨_, _, _, hc⟩⟩

end Finder

end GrammarSuite
