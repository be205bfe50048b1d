import GrammarSuite.Extreme
import GrammarSuite.Proofs.Derivation.Evaluation

/-!
# Searches of extreme strings

A search that reaches its bound is passed over, so that searches fail only where the grammar lacks
productions. Three of the six kinds have no bound to reach and are always found. Where passed over
kinds are recorded makes no difference to what is found.

## Main definitions

* `ExtremeKind.isSure`: the kinds that are always found
* `Extreme.IsMeasured`: the measures of a string are whole numbers
* `Extreme.IsFound`: what a search of a kind can give
* `Finder.SameSearch`: two finders with the same grammar, bound and source

## Main results

* `Finder.find_givesOnly`: what searches give
* `Finder.findEach_failsOnly`: how searches fail
* `Finder.length_findEach`: how many strings are found
* `Finder.findEach_alike`: the channel of the records makes no difference
* `Finder.findRepeated_eq_ok_iff`: a number of strings of each kind
-/

namespace GrammarSuite

open GrammarSuite.Action GrammarSuite.Random

open Json (Value)

/-- The kinds whose search reaches no bound: one has an expression to fall back on, and two are
fixed expressions. -/
def ExtremeKind.isSure : ExtremeKind → Bool
  | .maxComplexity | .shortExpression | .maxNesting => true
  | .maxDepth | .minDepth | .longExpression => false

/-- The measures of a string are whole numbers. -/
def Extreme.IsMeasured (e : Extreme) : Prop := ∀ m, ∃ n : Int, e.valueOf m = .int n

/-- A string is measured if what is given of its measures are whole numbers. -/
theorem Extreme.isMeasured_ofText {text : String} {kind : ExtremeKind} {description : Value}
    {depth : Int} (operatorCount terminalCount nestingLevel : Option Int) :
    (ofText text kind description (.int depth) (operatorCount.map .int) (terminalCount.map .int)
      (nestingLevel.map .int)).IsMeasured := by
  intro m
  cases m with
  | depth => exact ⟨depth, rfl⟩
  | operatorCount => cases operatorCount <;> exact ⟨_, rfl⟩
  | terminalCount => cases terminalCount <;> exact ⟨_, rfl⟩
  | nestingLevel => cases nestingLevel <;> exact ⟨_, rfl⟩

/-- What a search of a kind can give: a text, with the measure that the search goes by and the
others measured on its tokens. A depth is given for the kinds that go by it alone. -/
inductive Extreme.IsFound : ExtremeKind → Extreme → Prop
  | maxDepth (d : Derivation) :
    IsFound .maxDepth (ofText d.text .maxDepth
      (.text ("Derivation with " ++ toString d.depth ++ " steps")) (.int d.depth) none none none)
  | minDepth (text : String) (steps : Nat) :
    IsFound .minDepth (ofText text .minDepth (.text "Minimal case (shortest derivation)")
      (.int (steps + 1 : Nat)) none none none)
  | maxComplexity {text : String} {operators : Nat}
    (h : operators = Token.countOperators (Token.tokenize text)) :
    IsFound .maxComplexity (ofText text .maxComplexity
      (.text ("Expression with " ++ toString operators ++ " operators")) (.int 0)
      (some (.int operators)) none none)
  | longExpression {text : String} {terminals : Nat}
    (h : terminals = (Token.tokenize text).length) :
    IsFound .longExpression (ofText text .longExpression
      (.text ("Long expression with " ++ toString terminals ++ " terminal symbols")) (.int 0) none
      (some (.int terminals)) none)
  | shortExpression : IsFound .shortExpression shortest
  | maxNesting : IsFound .maxNesting deepestNesting

namespace Extreme.IsFound

variable {kind : ExtremeKind} {e : Extreme}

/-- A string that is found is of the kind that is searched. -/
theorem kind_eq (h : e.IsFound kind) : e.kind = kind := by
  cases h <;> rfl

/-- A kind that does not go by depth tells a depth of zero. -/
theorem depth_eq_zero (h : e.IsFound kind) (hkind : kind.measure ≠ .depth) : e.depth = .int 0 := by
  cases h with
  | maxDepth d => exact absurd rfl hkind
  | minDepth text steps => exact absurd rfl hkind
  | maxComplexity h => rfl
  | longExpression h => rfl
  | shortExpression => rfl
  | maxNesting => rfl

/-- A string that is found is measured. -/
theorem isMeasured (h : e.IsFound kind) : e.IsMeasured := by
  cases h with
  | maxDepth d => exact isMeasured_ofText none none none
  | minDepth text steps => exact isMeasured_ofText none none none
  | @maxComplexity text operators h => exact isMeasured_ofText (some (operators : Int)) none none
  | @longExpression text terminals h => exact isMeasured_ofText none (some (terminals : Int)) none
  | shortExpression => exact isMeasured_ofText none (some (1 : Int)) none
  | maxNesting => exact isMeasured_ofText none none (some (nestingLevels : Int))

end Extreme.IsFound

/-- A score that is kept beside a derivation is its own. -/
def Engine.IsScored (score : Derivation → Nat) (found : Option (Derivation × Nat)) : Prop :=
  ∀ d n, found = some (d, n) → n = score d

/-- What is better is a new derivation with its score, or what was there. -/
theorem Engine.IsScored.better {score : Derivation → Nat} {found : Option (Derivation × Nat)}
    (h : IsScored score found) (d : Derivation) :
    IsScored score (Engine.better found d (score d)) := by
  have hnew : IsScored score (some (d, score d)) := by simp [IsScored]
  unfold Engine.better
  split
  · exact hnew
  · split
    · exact hnew
    · exact h

/-- The best of a number of attempts has its own score, if what was found before has. -/
theorem Engine.best_givesOnly {σ : Type} [Source σ] (score : Derivation → Nat) (n : Nat)
    {found : Option (Derivation × Nat)} (hfound : IsScored score found) :
    (best (σ := σ) score n found).GivesOnly (IsScored score) := by
  induction n generalizing found with
  | zero => exact .pure hfound
  | succ n ih =>
    refine GivesOnly.bind fun outcome => ?_
    cases outcome with
    | none => exact ih hfound
    | some d => exact ih (hfound.better d)

namespace Finder

variable {σ : Type} [Source σ]

/-! ## How searches fail -/

/-- The parts of a finder that no action changes. -/
def setting (f : Finder σ) : Grammar × Value := (f.grammar, f.depthBound)

theorem bestOf_keeps (trials : Nat) (bound : Value) (score : Derivation → Nat) :
    (bestOf (σ := σ) trials bound score).Keeps setting := by
  intro f
  simp only [bestOf, runOn_ofFunction]
  rcases Engine.ofBound f.grammar bound f.source with e | engine <;> rfl

omit [Source σ] in
theorem deepBound_keeps : (deepBound (σ := σ)).Keeps setting := fun _ => rfl

theorem find_keeps (kind : ExtremeKind) : (find (σ := σ) kind).Keeps setting := by
  cases kind with
  | maxDepth | longExpression =>
    refine deepBound_keeps.bind fun bound => (bestOf_keeps _ _ _).bind fun found => ?_
    cases found with
    | none => exact .throw _
    | some found => exact .pure _
  | minDepth =>
    refine Keeps.bind (fun _ => rfl) fun f => ?_
    cases f.grammar.minimalDerivation Grammar.minimalStepLimit with
    | error e => exact .throw _
    | ok r => exact .pure _
  | maxComplexity =>
    refine Keeps.bind (fun _ => rfl) fun f => (bestOf_keeps _ _ _).bind fun found => ?_
    cases found with
    | none =>
      refine Keeps.bind (keeps_modify ?_) fun _ => (Keeps.pure _).bind fun _ => .pure _
      exact fun _ => rfl
    | some found => exact (Keeps.pure _).bind fun _ => .pure _
  | shortExpression | maxNesting => exact .pure _

theorem find?_keeps (channel : String) (kind : ExtremeKind) :
    (find? (σ := σ) channel kind).Keeps setting := by
  intro f
  have hkept := find_keeps kind f
  simp only [find?, runOn_ofFunction]
  rcases hrun : (find kind).runOn f with ⟨e | a, f'⟩
  · rw [hrun] at hkept
    cases e <;> exact hkept
  · rw [hrun] at hkept
    exact hkept

/-- What may be passed over gives what its search gives, or nothing and a record where that reached a
bound. -/
theorem find?_eq_ok_iff {channel : String} {kind : ExtremeKind} {f f' : Finder σ}
    {r : Option Extreme} :
    (find? channel kind).runOn f = (.ok r, f') ↔
      (∃ e, (find kind).runOn f = (.ok e, f') ∧ r = some e) ∨
      ∃ d f₁, (find kind).runOn f = (.error (.depthExceeded d), f₁) ∧ r = none ∧
        f' = f₁.log .warning channel ("Skipping " ++ kind.name ++ " case: " ++ d.message) := by
  simp only [find?, runOn_ofFunction]
  rcases (find kind).runOn f with ⟨e | a, f₁⟩
  · cases e <;> simp [eq_comm]
  · simp [eq_comm, and_comm]

section

variable [LawfulSource σ]

theorem bestOf_failsOnly {trials D : Nat} (hD : 0 < D) (score : Derivation → Nat) (f : Finder σ) :
    (bestOf trials (.int D) score).FailsOnly f f.grammar.IsLack := by
  intro e f' h
  simp only [bestOf, runOn_ofFunction, Engine.ofBound, DepthBound.ofValue_int hD, Except.map] at h
  rcases hrun : (Engine.best score trials none).runOn
    { grammar := f.grammar, bound := ⟨.int D, D, 0, hD⟩, source := f.source,
      journal := f.journal } with ⟨e' | found, engine⟩
  · rw [hrun] at h
    obtain ⟨rfl, -⟩ : e' = e ∧ _ := by simpa using h
    exact Engine.best_failsOnly score trials none _ _ _ hrun
  · rw [hrun] at h
    simp at h

/-- Searching below twice the bound fails only if nothing was derived, or where the grammar lacks
productions. -/
theorem deepBound_failsOnly {trials D : Nat} (hD : 0 < D) (score : Derivation → Nat) {f : Finder σ}
    (hbound : f.depthBound = .int D) {k : Value → Option (Derivation × Nat) → Action (Finder σ)
      Failure Extreme}
    (hk : ∀ bound found f', (k bound found).FailsOnly f' fun e => ∃ d, e = .depthExceeded d) :
    (deepBound >>= fun bound => bestOf trials bound score >>= k bound).FailsOnly f fun e =>
      (∃ d, e = .depthExceeded d) ∨ f.grammar.IsLack e := by
  have hdeep : (deepBound (σ := σ)).runOn f = (.ok (.int (D * 2 : Nat)), f) := by
    simp [deepBound, hbound, DepthBound.doubled]
  refine FailsOnly.bind (fun e f' h => ?_) fun bound f' h => ?_
  · rw [hdeep] at h
    cases h
  · rw [hdeep] at h
    obtain ⟨rfl, rfl⟩ : Value.int (D * 2 : Nat) = bound ∧ f = f' := by simpa using h
    refine FailsOnly.bind ((bestOf_failsOnly (by omega) score f).mono fun e => .inr) ?_
    exact fun found f' _ => (hk _ found f').mono fun e => .inl

/-- A search fails only at a bound, or where the grammar lacks productions; the kinds that are sure
have no bound to reach. -/
theorem find_failsOnly {D : Nat} (hD : 0 < D) (kind : ExtremeKind) {f : Finder σ}
    (hbound : f.depthBound = .int D) :
    (find kind).FailsOnly f fun e =>
      ((∃ d, e = .depthExceeded d) ∧ kind.isSure = false) ∨ f.grammar.IsLack e := by
  cases kind with
  | maxDepth | longExpression =>
    refine FailsOnly.mono (deepBound_failsOnly hD _ hbound fun bound found f' => ?_) fun e he =>
      he.imp_left fun h => ⟨h, rfl⟩
    cases found with
    | none => exact .throw ⟨_, rfl⟩
    | some found => exact .pure _
  | minDepth =>
    refine FailsOnly.bind (fun e f' h => by cases h) fun f₁ f' h => ?_
    obtain ⟨rfl, rfl⟩ : f = f₁ ∧ f = f' := by simpa using h
    rcases hminimal : f.grammar.minimalDerivation Grammar.minimalStepLimit with e | r
    · refine .throw ?_
      rcases Grammar.minimalDerivation_eq_error hminimal with hdepth | hlack
      · exact .inl ⟨⟨_, hdepth⟩, rfl⟩
      · exact .inr hlack
    · exact .pure _
  | maxComplexity =>
    refine FailsOnly.bind (fun e f' h => by cases h) fun f₁ f' h => ?_
    obtain ⟨rfl, rfl⟩ : f = f₁ ∧ f = f' := by simpa using h
    rw [hbound]
    refine FailsOnly.bind ((bestOf_failsOnly hD _ f).mono fun e => .inr) fun found f' _ => ?_
    cases found with
    | none => exact FailsOnly.bind (fun e f' h => by cases h) fun _ _ _ => .pure _
    | some found => exact .pure _
  | shortExpression | maxNesting => exact .pure _

/-- What is passed over is no failure. -/
theorem find?_failsOnly {D : Nat} (hD : 0 < D) (channel : String) (kind : ExtremeKind)
    {f : Finder σ} (hbound : f.depthBound = .int D) :
    (find? channel kind).FailsOnly f f.grammar.IsLack := by
  intro e f' h
  simp only [find?, runOn_ofFunction] at h
  rcases hrun : (find kind).runOn f with ⟨e' | a, f''⟩
  · rw [hrun] at h
    rcases find_failsOnly hD kind hbound e' f'' hrun with ⟨⟨d, rfl⟩, -⟩ | ⟨n, rfl, hn⟩
    · simp at h
    · obtain ⟨rfl, -⟩ : Failure.noProductions (.nonterminal n) = e ∧ _ := by simpa using h
      exact ⟨n, rfl, hn⟩
  · rw [hrun] at h
    simp at h

/-- A kind that is sure is not passed over. -/
theorem find?_of_isSure {D : Nat} (hD : 0 < D) {channel : String} {kind : ExtremeKind}
    (hkind : kind.isSure = true) {f f' : Finder σ} (hbound : f.depthBound = .int D)
    {r : Option Extreme} (h : (find? channel kind).runOn f = (.ok r, f')) : r.isSome = true := by
  rcases find?_eq_ok_iff.1 h with ⟨e, -, rfl⟩ | ⟨d, f₁, hrun, -, -⟩
  · rfl
  · rcases find_failsOnly hD kind hbound _ f₁ hrun with ⟨-, hunsure⟩ | ⟨n, hn, -⟩
    · rw [hkind] at hunsure
      cases hunsure
    · cases hn

end

theorem findEach_cons_eq_ok_iff {channel : String} {kind : ExtremeKind} {kinds : List ExtremeKind}
    {f f' : Finder σ} {es : List Extreme} :
    (findEach channel (kind :: kinds)).runOn f = (.ok es, f') ↔
      ∃ r f₁ rest, (find? channel kind).runOn f = (.ok r, f₁) ∧
        (findEach channel kinds).runOn f₁ = (.ok rest, f') ∧ es = r.toList ++ rest := by
  simp only [findEach, runOn_bind_eq_ok, runOn_pure, Prod.mk.injEq, Except.ok.injEq]
  constructor
  · rintro ⟨r, f₁, hr, rest, _, hrest, rfl, rfl⟩
    exact ⟨r, f₁, rest, hr, hrest, rfl⟩
  · rintro ⟨r, f₁, rest, hr, hrest, rfl⟩
    exact ⟨r, f₁, hr, rest, f', hrest, rfl, rfl⟩

theorem depthBound_of_find? {channel : String} {kind : ExtremeKind} {f f' : Finder σ}
    {r : Except Failure (Option Extreme)} (h : (find? channel kind).runOn f = (r, f')) :
    f'.grammar = f.grammar ∧ f'.depthBound = f.depthBound := by
  have hkept := find?_keeps channel kind f
  rw [h] at hkept
  exact Prod.mk.inj hkept

section

variable [LawfulSource σ]

/-- **Searches fail only where the grammar lacks productions.** -/
theorem findEach_failsOnly {D : Nat} (hD : 0 < D) (channel : String) (kinds : List ExtremeKind)
    {f : Finder σ} (hbound : f.depthBound = .int D) :
    (findEach channel kinds).FailsOnly f f.grammar.IsLack := by
  induction kinds generalizing f with
  | nil => exact .pure _
  | cons kind kinds ih =>
    refine (find?_failsOnly hD channel kind hbound).bind fun r f₁ h => ?_
    obtain ⟨hgrammar, hkept⟩ := depthBound_of_find? h
    rw [← hgrammar]
    exact (ih (hkept.trans hbound)).bind fun _ _ _ => .pure _

theorem findRepeated_failsOnly {D : Nat} (hD : 0 < D) (channel : String) (kinds : List ExtremeKind)
    (n : Int) {f : Finder σ} (hbound : f.depthBound = .int D) :
    (findRepeated channel kinds (.int n)).FailsOnly f f.grammar.IsLack := by
  unfold findRepeated
  split
  · exact .pure _
  · exact FailsOnly.bind (.pure n) fun m t h => by
      obtain ⟨rfl, rfl⟩ : n = m ∧ f = t := by simpa [Failure.required, Value.whole] using h
      exact findEach_failsOnly hD channel _ hbound

/-- **The kinds that are sure are all found**, and no kind is found more often than asked for. -/
theorem length_findEach {D : Nat} (hD : 0 < D) {channel : String} {kinds : List ExtremeKind}
    {f f' : Finder σ} (hbound : f.depthBound = .int D) {es : List Extreme}
    (h : (findEach channel kinds).runOn f = (.ok es, f')) :
    kinds.countP ExtremeKind.isSure ≤ es.length ∧ es.length ≤ kinds.length := by
  induction kinds generalizing f es with
  | nil =>
    obtain ⟨rfl, -⟩ : [] = es ∧ f = f' := by simpa [findEach] using h
    exact ⟨le_rfl, le_rfl⟩
  | cons kind kinds ih =>
    obtain ⟨r, f₁, rest, hr, hrest, rfl⟩ := findEach_cons_eq_ok_iff.1 h
    obtain ⟨hleast, hmost⟩ := ih ((depthBound_of_find? hr).2.trans hbound) hrest
    rw [List.countP_cons, List.length_append, List.length_cons]
    have hone : r.toList.length ≤ 1 := by cases r <;> simp
    by_cases hkind : kind.isSure = true
    · have hfound := find?_of_isSure hD hkind hbound hr
      have hsome : r.toList.length = 1 := by
        obtain ⟨a, rfl⟩ := Option.isSome_iff_exists.1 hfound
        rfl
      rw [if_pos hkind]
      omega
    · rw [if_neg hkind]
      omega

end

/-! ## What is found -/

/-- Half of the kinds are sure. -/
theorem countP_isSure_repeated (k : Nat) :
    (repeated ExtremeKind.all k).countP ExtremeKind.isSure = 3 * k := by
  simp [repeated, ExtremeKind.all, ExtremeKind.isSure, List.countP_replicate]
  omega

theorem length_repeated (k : Nat) : (repeated ExtremeKind.all k).length = 6 * k := by
  simp [repeated, ExtremeKind.all]
  omega

/-- The best of a number of derivations has its own score. -/
theorem bestOf_givesOnly (trials : Nat) (bound : Value) (score : Derivation → Nat) :
    (bestOf (σ := σ) trials bound score).GivesOnly (Engine.IsScored score) := by
  intro f found f' h
  simp only [bestOf, runOn_ofFunction] at h
  rcases hengine : Engine.ofBound f.grammar bound f.source with e | engine
  · rw [hengine] at h
    simp at h
  · rw [hengine] at h
    exact Engine.best_givesOnly score trials (by simp [Engine.IsScored]) _ _ _
      (Prod.ext (Prod.mk.inj h).1 rfl)

/-- **What a search of a kind can give**, for each of the kinds. -/
theorem find_givesOnly (kind : ExtremeKind) :
    (find (σ := σ) kind).GivesOnly (Extreme.IsFound kind) := by
  cases kind with
  | maxDepth =>
    refine GivesOnly.bind fun bound => (bestOf_givesOnly _ _ _).bind_of fun found hfound => ?_
    cases found with
    | none => exact .throw _
    | some found =>
      obtain ⟨d, depth⟩ := found
      obtain rfl : depth = d.depth := hfound d depth rfl
      exact .pure (.maxDepth d)
  | minDepth =>
    refine GivesOnly.bind fun f => ?_
    cases f.grammar.minimalDerivation Grammar.minimalStepLimit with
    | error e => exact .throw _
    | ok r => exact .pure (.minDepth r.1 r.2)
  | maxComplexity =>
    refine GivesOnly.bind fun f => (bestOf_givesOnly _ _ _).bind_of fun found hfound => ?_
    cases found with
    | none => exact GivesOnly.bind fun _ => .pure (.maxComplexity rfl)
    | some found => exact .pure (.maxComplexity (hfound found.1 found.2 rfl))
  | longExpression =>
    refine GivesOnly.bind fun bound => (bestOf_givesOnly _ _ _).bind_of fun found hfound => ?_
    cases found with
    | none => exact .throw _
    | some found => exact .pure (.longExpression (hfound found.1 found.2 rfl))
  | shortExpression => exact .pure .shortExpression
  | maxNesting => exact .pure .maxNesting

theorem findEach_isMeasured {channel : String} {kinds : List ExtremeKind} {f f' : Finder σ}
    {es : List Extreme} (h : (findEach channel kinds).runOn f = (.ok es, f')) :
    ∀ e ∈ es, e.IsMeasured := by
  induction kinds generalizing f es with
  | nil =>
    obtain ⟨rfl, -⟩ : [] = es ∧ f = f' := by simpa [findEach] using h
    simp
  | cons kind kinds ih =>
    obtain ⟨r, f₁, rest, hr, hrest, rfl⟩ := findEach_cons_eq_ok_iff.1 h
    intro e he
    rcases List.mem_append.1 he with he | he
    · rcases find?_eq_ok_iff.1 hr with ⟨x, hrun, rfl⟩ | ⟨d, f₂, -, rfl, -⟩
      · obtain rfl : e = x := by simpa using he
        exact (find_givesOnly kind f _ _ hrun).isMeasured
      · cases he
    · exact ih hrest e he

/-- A number of strings of each kind is a search for each of them; without kinds the number is not
looked at. -/
theorem findRepeated_eq_ok_iff {channel : String} {kinds : List ExtremeKind} {perKind : Value}
    (hkinds : kinds ≠ []) {f : Finder σ} {es : List Extreme} :
    ((findRepeated channel kinds perKind).runOn f).1 = .ok es ↔
      ∃ n, perKind.whole = .ok n ∧
        ((findEach channel (repeated kinds n)).runOn f).1 = .ok es := by
  rw [findRepeated, if_neg (by simpa using hkinds)]
  rcases perKind.whole with m | n
  · simp [Failure.required]
  · simp [Failure.required]

/-! ## What is drawn decides -/

/-- Two finders with the same grammar, bound and source. -/
def SameSearch (f f' : Finder σ) : Prop :=
  f.grammar = f'.grammar ∧ f.depthBound = f'.depthBound ∧ f.source = f'.source

theorem bestOf_alike (trials : Nat) (bound : Value) (score : Derivation → Nat) :
    Alike SameSearch (bestOf (σ := σ) trials bound score) (bestOf trials bound score) := by
  rintro f f' ⟨hgrammar, hbound, hsource⟩
  simp only [bestOf, runOn_ofFunction, hgrammar, hsource]
  rcases Engine.ofBound f'.grammar bound f'.source with e | engine
  · exact ⟨rfl, hgrammar, hbound, hsource⟩
  · obtain ⟨hout, -, -, hsame⟩ := Engine.best_alike score trials none
      { engine with journal := f.journal } { engine with journal := f'.journal } ⟨rfl, rfl, rfl⟩
    exact ⟨hout, rfl, hbound, hsame⟩

theorem find_alike (kind : ExtremeKind) :
    Alike SameSearch (find (σ := σ) kind) (find kind) := by
  have hdeep : Alike SameSearch (deepBound (σ := σ)) deepBound := by
    rintro f f' ⟨hgrammar, hbound, hsource⟩
    exact ⟨by simp [deepBound, hbound], hgrammar, hbound, hsource⟩
  cases kind with
  | maxDepth | longExpression =>
    refine hdeep.bind fun bound => (bestOf_alike _ _ _).bind fun found => ?_
    cases found with
    | none => exact .throw _
    | some found => exact .pure _
  | minDepth =>
    refine Alike.get_bind fun f f' h => ?_
    rw [h.1]
    cases f'.grammar.minimalDerivation Grammar.minimalStepLimit with
    | error e => exact .throw _
    | ok r => exact .pure _
  | maxComplexity =>
    refine Alike.get_bind fun f f' h => ?_
    rw [h.2.1]
    refine (bestOf_alike _ _ _).bind fun found => ?_
    cases found with
    | none =>
      refine Alike.bind (alike_modify ?_) fun _ => (Alike.pure _).bind fun _ => .pure _
      exact fun _ _ h => h
    | some found => exact (Alike.pure _).bind fun _ => .pure _
  | shortExpression | maxNesting => exact .pure _

/-- The channel of the records makes no difference to one search. -/
theorem find?_alike (channel channel' : String) (kind : ExtremeKind) :
    Alike SameSearch (find? (σ := σ) channel kind) (find? channel' kind) := by
  intro f f' h
  obtain ⟨hout, hsame⟩ := find_alike kind f f' h
  simp only [find?, runOn_ofFunction]
  rcases hf : (find kind).runOn f with ⟨e | a, f₁⟩ <;>
    rcases hf' : (find kind).runOn f' with ⟨e' | a', f₁'⟩ <;> rw [hf, hf'] at hout hsame
  · obtain rfl := Except.error.inj hout
    cases e <;> exact ⟨rfl, hsame⟩
  · cases hout
  · cases hout
  · obtain rfl := Except.ok.inj hout
    exact ⟨rfl, hsame⟩

/-- **The channel of the records makes no difference to what is found.** -/
theorem findEach_alike (channel channel' : String) (kinds : List ExtremeKind) :
    Alike SameSearch (findEach (σ := σ) channel kinds) (findEach channel' kinds) := by
  induction kinds with
  | nil => exact .pure _
  | cons kind kinds ih =>
    exact (find?_alike channel channel' kind).bind fun _ => ih.bind fun _ => .pure _

theorem findRepeated_alike (channel channel' : String) (kinds : List ExtremeKind)
    (perKind : Value) : Alike SameSearch (findRepeated (σ := σ) channel kinds perKind)
      (findRepeated channel' kinds perKind) := by
  unfold findRepeated
  split
  · exact .pure _
  · cases perKind.whole with
    | error m => exact .throw _
    | ok n => exact (Alike.pure n).bind fun _ => findEach_alike channel channel' _

end Finder

end GrammarSuite
