import GrammarSuite.Proofs.Case.Numbering
import GrammarSuite.Proofs.Metrics.Counts
import Mathlib.Algebra.BigOperators.Group.List.Lemmas
import Mathlib.Data.List.Nodup

/-!
# The entries of labelled cases

A case that a session made tells what it was made from: its category and its text, and in its
metadata the number of its tokens, its operators, and its depth and its kind where it has one. None
of this depends on the state of the session.

## Main definitions

* `Origin.Makes`: a session makes a case of an origin
* `Labelled`: a case with its origin
* `Labelled.tokens`: the tokens of the content of a case

## Main results

* `Token.sum_map_count`: the numbers of tokens of single spellings and of all of them
* `Session.exists_of_labelled`: what a case consists of
* `Labelled.get?_eq_some_iff`: the entries of a labelled case
-/

namespace GrammarSuite

open GrammarSuite.Action

open Json (Misuse Value)

/-- The numbers of tokens of different spellings add up to the number of tokens that have one of
them. -/
theorem Token.sum_map_count {spellings : List String} (h : spellings.Nodup) (tokens : List String) :
    (spellings.map tokens.count).sum = tokens.countP (· ∈ spellings) := by
  induction tokens with
  | nil => simp
  | cons t rest ih =>
    -- The first token is counted where its spelling is, and there once.
    have hfirst : (spellings.map fun s => if t == s then 1 else 0).sum =
        if t ∈ spellings then 1 else 0 := by
      rw [List.sum_map_eq_nsmul_single t _ fun s hs _ => by simp [hs.symm]]
      by_cases hmem : t ∈ spellings
      · simp [hmem, List.count_eq_one_of_mem h hmem]
      · simp [hmem, List.count_eq_zero_of_not_mem hmem]
    simp only [List.count_cons, List.sum_map_add, List.countP_cons, hfirst, ih, decide_eq_true_eq]

/-- A case consists of its subject, with the entries that its subject and every text has. -/
theorem Session.exists_of_labelled {identifier counter : Value} {now : Except Misuse Instant}
    {s : Subject} {c : TestCase} (h : labelled identifier now s counter = .ok c) :
    ∃ text spelling base, s.content = .text text ∧
      c = TestCase.annotateAll base (s.entries ++ stringMetadata spelling text) ∧
      base.content = s.content ∧ base.category = s.category ∧ base.metadata = [] := by
  rw [labelled] at h
  obtain ⟨number, -, h⟩ := bind_eq_ok_iff.1 h
  obtain ⟨created, -, h⟩ := bind_eq_ok_iff.1 h
  obtain ⟨-, -, h⟩ := bind_eq_ok_iff.1 h
  obtain ⟨text, htext, h⟩ := bind_eq_ok_iff.1 h
  obtain ⟨spelling, -, h⟩ := bind_eq_ok_iff.1 h
  obtain rfl := Except.ok.inj h
  have hcontent : s.content = .text text := by
    cases hcontent : s.content with
    | text t =>
      rw [hcontent] at htext
      exact congrArg Value.text (Except.ok.inj htext)
    | _ =>
      rw [hcontent] at htext
      cases htext
  exact ⟨text, spelling, _, hcontent, rfl, rfl, rfl, rfl⟩

namespace Origin

/-- The text that is labelled. -/
def text : Origin → String
  | derivation d _ => d.text
  | mutation m => m.text
  | extreme e _ => e.text

/-- The depth of a derivation or of an extreme string. -/
def depth? : Origin → Option Int
  | derivation d _ => some d.depth
  | mutation _ => none
  | extreme e _ =>
    match e.depth with
    | .int n => some n
    | _ => none

def mutationKind? : Origin → Option MutationKind
  | mutation m => some m.kind
  | _ => none

def extremeKind? : Origin → Option ExtremeKind
  | extreme e _ => some e.kind
  | _ => none

/-- A session makes a case of an origin, in whatever state and at whatever moment. -/
def Makes (o : Origin) (c : TestCase) : Prop :=
  ∃ now session session', (Session.classify now o.subject).runOn session = (.ok c, session')

theorem content_subject (o : Origin) : o.subject.content = .text o.text := by
  cases o <;> rfl

theorem isCountedEntry_of_mem (o : Origin) :
    ∀ e ∈ o.subject.entries, TestCase.IsCountedEntry e := by
  cases o with
  | derivation d description => exact Subject.isCountedEntry_of_mem_ofDerivation d description
  | mutation m => exact Subject.isCountedEntry_of_mem_ofMutation m
  | extreme e h => exact Subject.isCountedEntry_of_mem_ofExtreme h

theorem exists_depth {e : Extreme} (h : e.IsMeasured) :
    ∃ n, e.depth = .int n ∧ (extreme e h).depth? = some n := by
  obtain ⟨n, hn⟩ := h .depth
  have hdepth : e.depth = .int n := hn
  exact ⟨n, hdepth, by rw [depth?, hdepth]⟩

/-- No two entries of a case have the same name. -/
theorem nodup_names (o : Origin) (spelling : String) :
    ((o.subject.allEntries spelling).map Prod.fst).Nodup := by
  have hnames : ∀ content, (stringMetadata spelling content).map Prod.fst =
      ["length", "token_count", "open_parens", "close_parens", "parens_balanced", "operators",
        "total_operators", "identifier_count"] := fun _ => rfl
  rw [Subject.allEntries, List.map_append, hnames]
  -- The names of an origin hang on its constructor alone, so that they can be compared.
  cases o with
  | derivation d description =>
    show (["generation_method", "depth", "derivation_steps"] ++ _).Nodup
    decide
  | mutation m =>
    show (["generation_method", "mutation_kind", "original"] ++ _).Nodup
    decide
  | extreme e h =>
    show (["generation_method", "extreme_kind", "depth", "operator_count", "terminal_count",
      "nesting_level", "metric"] ++ _).Nodup
    decide

end Origin

/-- A new session makes the first case of any origin. -/
theorem Origin.makes_case (o : Origin) (spelling : String) (created : Instant) :
    o.Makes (o.subject.case spelling created 1) := by
  refine ⟨.ok created, ⟨.text spelling, .int (0 : Nat)⟩, ⟨.text spelling, .int (0 + 1 : Nat)⟩, ?_⟩
  rw [Session.classify_of_isProper o.isProper, if_pos Value.one_lt_unwritable]

/-- A case that a session made, with its origin. -/
structure Labelled where
  origin : Origin
  case : TestCase
  made : origin.Makes case

/-- The first case of a session. -/
def Origin.first (o : Origin) (created : Instant) : Labelled :=
  ⟨o, o.subject.case Token.defaultIdentifier created 1, o.makes_case _ created⟩

namespace Labelled

variable {l : Labelled}

/-- The tokens of the content of a case. -/
def tokens (l : Labelled) : List String :=
  match l.case.content with
  | .text s => Token.tokenize s
  | _ => []

/-- A case was labelled with the number of some counter. -/
theorem exists_labelled (l : Labelled) : ∃ identifier now counter,
    Session.labelled identifier now l.origin.subject counter = .ok l.case := by
  obtain ⟨origin, c, now, session, session', hrun⟩ := l
  rw [Session.classify, runOn_ofFunction] at hrun
  rcases hcounter : Session.successor session.counter with m | counter
  · rw [hcounter] at hrun
    cases hrun
  · rw [hcounter] at hrun
    exact ⟨session.identifier, now, counter, (Prod.mk.inj hrun).1⟩

theorem exists_case (l : Labelled) : ∃ spelling base,
    l.case = TestCase.annotateAll base (l.origin.subject.allEntries spelling) ∧
      base.content = .text l.origin.text ∧ base.category = l.origin.subject.category ∧
      base.metadata = [] := by
  obtain ⟨identifier, now, counter, hlabelled⟩ := l.exists_labelled
  obtain ⟨text, spelling, base, htext, hc, hcontent, hcategory, hmetadata⟩ :=
    Session.exists_of_labelled hlabelled
  rw [htext] at hcontent
  refine ⟨spelling, base, ?_, ?_, hcategory, hmetadata⟩
  · rw [Subject.allEntries, htext]
    exact hc
  · rw [hcontent, ← htext, l.origin.content_subject]

theorem category_case (l : Labelled) : l.case.category = l.origin.subject.category := by
  obtain ⟨spelling, base, hcase, -, hcategory, -⟩ := l.exists_case
  rw [hcase, TestCase.annotateAll_eq]
  exact hcategory

/-- The invalid cases are the mutations, and these have a kind but no depth. -/
theorem isInvalid_iff (l : Labelled) :
    l.case.category = .invalid ↔ l.origin.mutationKind?.isSome = true := by
  rw [l.category_case]
  cases l.origin <;>
    simp [Origin.subject, Subject.ofDerivation, Subject.valid, Subject.ofMutation,
      Subject.invalid, Subject.ofExtreme, Origin.mutationKind?]

theorem isExtreme_iff (l : Labelled) :
    l.case.category = .extreme ↔ l.origin.extremeKind?.isSome = true := by
  rw [l.category_case]
  cases l.origin <;>
    simp [Origin.subject, Subject.ofDerivation, Subject.valid, Subject.ofMutation,
      Subject.invalid, Subject.ofExtreme, Origin.extremeKind?]

theorem isInvalid_of_depth {l : Labelled} (h : l.origin.depth? = none) :
    l.case.category = .invalid := by
  rw [l.category_case]
  rcases horigin : l.origin with ⟨d, description⟩ | ⟨m⟩ | ⟨e, he⟩ <;> rw [horigin] at h
  · cases h
  · rfl
  · obtain ⟨n, -, hdepth⟩ := Origin.exists_depth he
    rw [hdepth] at h
    cases h

theorem content_case (l : Labelled) : l.case.content = .text l.origin.text := by
  obtain ⟨spelling, base, hcase, hcontent, -, -⟩ := l.exists_case
  rw [hcase, TestCase.annotateAll_eq]
  exact hcontent

theorem tokens_eq (l : Labelled) : l.tokens = Token.tokenize l.origin.text := by
  rw [tokens, l.content_case]

theorem isCounted (l : Labelled) : l.case.IsCounted := by
  obtain ⟨spelling, base, hcase, -, -, hmetadata⟩ := l.exists_case
  rw [hcase]
  exact TestCase.isCounted_annotateAll hmetadata
    (Subject.isCountedEntry_of_mem_allEntries l.origin.isCountedEntry_of_mem)

/-- **An entry of a labelled case** is one that its origin has, or one that its text has. -/
theorem get?_eq_some_iff (l : Labelled) : ∃ spelling, ∀ name v,
    l.case.metadata.get? name = some v ↔ (name, v) ∈ l.origin.subject.allEntries spelling := by
  obtain ⟨spelling, base, hcase, -, -, hmetadata⟩ := l.exists_case
  refine ⟨spelling, fun name v => ?_⟩
  rw [hcase]
  exact ⟨TestCase.mem_of_get?_annotateAll hmetadata,
    TestCase.get?_annotateAll (l.origin.nodup_names spelling)⟩

/-! ## Single entries -/

theorem get?_of_text {name : String} {v : Value}
    (h : ∀ spelling, (name, v) ∈ stringMetadata spelling l.origin.text) :
    l.case.metadata.get? name = some v := by
  obtain ⟨spelling, hget⟩ := l.get?_eq_some_iff
  refine (hget name v).2 (List.mem_append_right _ ?_)
  rw [l.origin.content_subject]
  exact h spelling

theorem get?_of_origin {name : String} {v : Value} (h : (name, v) ∈ l.origin.subject.entries) :
    l.case.metadata.get? name = some v := by
  obtain ⟨spelling, hget⟩ := l.get?_eq_some_iff
  exact (hget name v).2 (List.mem_append_left _ h)

theorem get?_tokenCount (l : Labelled) :
    l.case.metadata.get? "token_count" = some (.int l.tokens.length) := by
  refine get?_of_text fun spelling => ?_
  rw [tokens_eq]
  simp [stringMetadata]

theorem get?_operators (l : Labelled) : l.case.metadata.get? "operators" =
    some (.object (Token.operators.map fun op => (op, .int (l.tokens.count op)))) := by
  refine get?_of_text fun spelling => ?_
  rw [tokens_eq]
  simp [stringMetadata, Token.histogram]

theorem get?_parensBalanced (l : Labelled) : l.case.metadata.get? "parens_balanced" =
    some (.bool (l.tokens.count Token.openParen = l.tokens.count Token.closeParen)) := by
  refine get?_of_text fun spelling => ?_
  rw [tokens_eq]
  simp [stringMetadata]

theorem get?_totalOperators (l : Labelled) : l.case.metadata.get? "total_operators" =
    some (.int ((Token.operators.map l.tokens.count).sum : Nat)) := by
  refine get?_of_text fun spelling => ?_
  rw [tokens_eq]
  simp [stringMetadata, Token.histogram, List.foldr_map, List.sum]

/-- Only mutations have no depth. -/
theorem get?_depth (l : Labelled) :
    l.case.metadata.get? "depth" = l.origin.depth?.map .int := by
  rcases horigin : l.origin with ⟨d, description⟩ | ⟨m⟩ | ⟨e, h⟩
  · refine get?_of_origin ?_
    rw [horigin]
    simp [Origin.subject, Subject.ofDerivation, Subject.valid]
  · -- An entry of this name would be among those of a mutation or of a text.
    obtain ⟨spelling, hget⟩ := l.get?_eq_some_iff
    rw [horigin] at hget
    refine Option.eq_none_iff_forall_not_mem.2 fun v hv => ?_
    have hmem := (hget "depth" v).1 hv
    simp [Subject.allEntries, Origin.subject, Subject.ofMutation, Subject.invalid,
      stringMetadata] at hmem
  · obtain ⟨n, hn, hdepth⟩ := Origin.exists_depth h
    rw [hdepth]
    refine get?_of_origin ?_
    rw [horigin]
    simp [Origin.subject, Subject.ofExtreme, Extreme.measures, Measure.name, Extreme.valueOf, hn]

theorem get?_mutationKind {kind : MutationKind} (h : l.origin.mutationKind? = some kind) :
    l.case.metadata.get? "mutation_kind" = some (.text kind.name) := by
  refine get?_of_origin ?_
  rcases horigin : l.origin with ⟨d, description⟩ | ⟨m⟩ | ⟨e, he⟩ <;> rw [horigin] at h
  · cases h
  · obtain rfl := Option.some.inj h
    simp [Origin.subject, Subject.ofMutation, Subject.invalid]
  · cases h

theorem get?_extremeKind {kind : ExtremeKind} (h : l.origin.extremeKind? = some kind) :
    l.case.metadata.get? "extreme_kind" = some (.text kind.name) := by
  refine get?_of_origin ?_
  rcases horigin : l.origin with ⟨d, description⟩ | ⟨m⟩ | ⟨e, he⟩ <;> rw [horigin] at h
  · cases h
  · cases h
  · obtain rfl := Option.some.inj h
    simp [Origin.subject, Subject.ofExtreme]

/-! ## Large numbers -/

/-- A case has so many tokens, or such a depth, that the number is near the greatest double or
beyond it. -/
def IsLarge (l : Labelled) : Prop :=
  Decimal.finiteBound ≤ l.tokens.length ∨
    ∃ n, l.origin.depth? = some n ∧ Decimal.finiteBound ≤ n.natAbs

theorem isLarge_of_exceeds {l : Labelled} (h : l.case.Exceeds) : l.IsLarge := by
  obtain ⟨name, hname, n, hn, hlarge⟩ := h
  simp only [TestCase.numberNames, List.mem_cons, List.not_mem_nil, or_false] at hname
  rcases hname with rfl | rfl | rfl
  · rw [l.get?_tokenCount] at hn
    obtain rfl : (l.tokens.length : Int) = n := by simpa using hn
    exact .inl hlarge
  · rw [l.get?_depth] at hn
    obtain ⟨k, hk, hkn⟩ := Option.map_eq_some_iff.1 hn
    exact .inr ⟨n, by rw [hk, Value.int.inj hkn], hlarge⟩
  · rw [l.get?_totalOperators] at hn
    obtain rfl : ((Token.operators.map l.tokens.count).sum : Int) = n := by simpa using hn
    rw [Token.sum_map_count (by decide)] at hlarge
    exact .inl (hlarge.trans List.countP_le_length)

end Labelled

end GrammarSuite
