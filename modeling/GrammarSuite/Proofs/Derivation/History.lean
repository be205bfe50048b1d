import GrammarSuite.Proofs.Derivation.Runs

/-!
# What an engine remembers

Operations on an engine start any number of derivations, and may be given up in the midst of them.
Whatever is asked of an engine, in whatever order, it remembers the trace of the derivation that was
started last, and nothing if that one failed.

An operation is followed from one derivation to the next. Between two derivations an engine draws
and makes records, but its grammar, its bound and its memory stay as they are.

## Main definitions

* `Engine.Operation`: what may be asked of an engine
* `Engine.startsAll`: the engines from which a sequence of operations starts its derivations
* `Engine.Proceeds`: an engine goes on from one derivation to the next
* `Engine.trace`: the trace of a derivation, empty if it fails

## Main results

* `Engine.performAll_proceeds`: operations go on from one derivation to the next
* `Engine.history_performAll`: the failures, the draws and the memory over a sequence of operations
-/

namespace GrammarSuite.Engine

open GrammarSuite.Action GrammarSuite.Random

variable {σ : Type} [Source σ]

/-! ## Operations -/

/-- What may be asked of an engine. -/
inductive Operation
  | derive
  | attempt
  | generate
  | derivations (count : Json.Value)
  | batch (count : Json.Value)
  | select (symbol : Symbol) (index : Json.Value)
  | expand (symbol : Symbol)
  | statistics (samples : Json.Value)

/-- The engine after an operation, whether that failed or not. -/
def perform (e : Engine σ) : Operation → Engine σ
  | .derive => (derive.runOn e).2
  | .attempt => (attempt.runOn e).2
  | .generate => (generate.runOn e).2
  | .derivations count => ((derivations count).runOn e).2
  | .batch count => ((batch count).runOn e).2
  -- A production is selected from the grammar, and no engine takes part.
  | .select _ _ => e
  | .expand symbol => ((expand symbol).runOn e).2
  | .statistics samples => ((statistics samples).runOn e).2

/-- The engines from which a number of attempts start their derivations. An attempt that fails is
the last one. -/
def attemptStarts : Nat → Engine σ → List (Engine σ)
  | 0, _ => []
  | n + 1, e => e :: match attempt.runOn e with
    | (.ok _, e') => attemptStarts n e'
    | (.error _, _) => []

/-- The engines from which an operation starts its derivations. -/
def starts (e : Engine σ) : Operation → List (Engine σ)
  | .derive | .attempt | .generate => [e]
  | .derivations count | .batch count | .statistics count =>
    match count.whole with
    | .ok n => attemptStarts n.toNat e
    | .error _ => []
  | .select _ _ | .expand _ => []

/-- The engine after a sequence of operations. -/
def performAll (ops : List Operation) (e : Engine σ) : Engine σ := ops.foldl perform e

/-- The engines from which a sequence of operations starts its derivations. -/
def startsAll : List Operation → Engine σ → List (Engine σ)
  | [], _ => []
  | op :: rest, e => e.starts op ++ startsAll rest (e.perform op)

/-! ## From one derivation to the next -/

/-- What changes in derivations only, or never. -/
def memory (e : Engine σ) : Grammar × DepthBound × List Step := (e.grammar, e.bound, e.history)

/-- The trace of a derivation from an engine, empty if it fails. -/
def trace (e : Engine σ) : List Step :=
  match (derive.runOn e).1 with
  | .ok d => d.steps
  | .error _ => []

/-- **An engine goes on by derivations from the given engines**, one after the other. Between them
it remembers what it did before. -/
inductive Proceeds : Engine σ → List (Engine σ) → Engine σ → Prop
  | rest {e e' : Engine σ} (h : e'.memory = e.memory) : Proceeds e [] e'
  | run {e s e' : Engine σ} {others : List (Engine σ)} (h : s.memory = e.memory)
      (hothers : Proceeds (derive.runOn s).2 others e') : Proceeds e (s :: others) e'

section

variable {e e' e'' s : Engine σ} {ss ss' : List (Engine σ)}

theorem Proceeds.of_memory_eq (h : Proceeds e ss e') (hmemory : e.memory = e''.memory) :
    Proceeds e'' ss e' := by
  cases h with
  | rest h => exact .rest (h.trans hmemory)
  | run h hothers => exact .run (h.trans hmemory) hothers

theorem Proceeds.trans (h : Proceeds e ss e') (h' : Proceeds e' ss' e'') :
    Proceeds e (ss ++ ss') e'' := by
  induction h with
  | rest h => exact h'.of_memory_eq h
  | run h hothers ih => exact .run h (ih h')

theorem Proceeds.concat_rest (h : Proceeds e ss e') (hmemory : e''.memory = e'.memory) :
    Proceeds e ss e'' := by
  have := h.trans (.rest hmemory)
  rwa [List.append_nil] at this

/-- A derivation leaves its trace. -/
theorem history_derive (e : Engine σ) : (derive.runOn e).2.history = e.trace := by
  unfold trace
  simp only [derive, runOn_ofFunction]
  rcases (expandAll e.grammar e.bound e.bound.limit [e.grammar.start]).runOn e.source with
    ⟨f | steps, source⟩ <;> rfl

/-- The trace of the last derivation remains. -/
theorem Proceeds.history (h : Proceeds e ss e') :
    e'.history = (ss.getLast?.map trace).getD e.history := by
  induction h with
  | @rest e e' h => exact congrArg (fun m => m.2.2) h
  | @run e s e' others h hothers ih =>
    rw [ih, history_derive, List.getLast?_cons]
    cases others.getLast? <;> rfl

theorem Proceeds.setting (h : Proceeds e ss e') : ∀ s ∈ ss, s.setting = e.setting := by
  induction h with
  | rest h => simp
  | @run e s e' others h hothers ih =>
    have hs : s.setting = e.setting := congrArg (fun m => (m.1, m.2.1)) h
    intro s' hs'
    rcases List.mem_cons.1 hs' with rfl | hs'
    · exact hs
    · rw [ih s' hs', derive_keeps s, hs]

/-! ## Operations go on from one derivation to the next -/

/-- An attempt remembers what its derivation does. -/
theorem memory_attempt (e : Engine σ) : (attempt.runOn e).2.memory = (derive.runOn e).2.memory := by
  simp only [attempt, runOn_ofFunction]
  rcases derive.runOn e with ⟨f | d, e'⟩
  · cases f <;> rfl
  · rfl

theorem attempts_proceeds (n : Nat) (e : Engine σ) :
    Proceeds e (attemptStarts n e) ((attempts n).runOn e).2 := by
  induction n generalizing e with
  | zero => exact .rest rfl
  | succ n ih =>
    have hmemory := memory_attempt e
    rw [attempts, attemptStarts, runOn_bind]
    rcases hrun : attempt.runOn e with ⟨f | d, e₁⟩ <;> rw [hrun] at hmemory
    · exact .run rfl (.rest hmemory)
    · -- The other attempts go on from the engine that this one leaves.
      have hothers := (ih e₁).of_memory_eq hmemory
      exact .run rfl (hothers.concat_rest (Keeps.after (fun _ => .pure _) e₁))

theorem derivations_proceeds (count : Json.Value) (e : Engine σ) :
    Proceeds e (e.starts (.derivations count)) ((derivations count).runOn e).2 := by
  rw [derivations, starts]
  rcases count.whole with m | n
  · exact .rest rfl
  · simp only [Failure.required, pure_bind]
    refine (attempts_proceeds n.toNat e).concat_rest (Keeps.after (fun ds => ?_) e)
    split
    · exact .bind (fun _ => rfl) fun _ => .pure _
    · exact .pure _

theorem statistics_proceeds (samples : Json.Value) (e : Engine σ) :
    Proceeds e (e.starts (.statistics samples)) ((statistics samples).runOn e).2 := by
  have hderivations := derivations_proceeds samples e
  rw [starts] at hderivations
  rw [statistics, starts]
  rcases hsamples : samples.whole with m | n
  · exact .rest rfl
  · rw [hsamples] at hderivations
    simp only [Failure.required, pure_bind, runOn_map]
    exact hderivations

theorem memory_expand (symbol : Symbol) (e : Engine σ) :
    ((expand symbol).runOn e).2.memory = e.memory := by
  have hkeeps : (expand symbol).Keeps (memory (σ := σ)) := by
    rw [expand]
    exact Keeps.bind (fun _ => rfl) fun e' =>
      Keeps.bind (.within fun _ _ => rfl) fun _ => .pure _
  exact hkeeps e

/-- **Each operation goes on from one derivation to the next.** -/
theorem perform_proceeds (op : Operation) (e : Engine σ) :
    Proceeds e (e.starts op) (e.perform op) := by
  cases op with
  | derive => exact .run rfl (.rest rfl)
  | attempt => exact .run rfl (.rest (memory_attempt e))
  | generate =>
    refine .run rfl (.rest ?_)
    rw [perform, generate, runOn_map]
  | derivations count => exact derivations_proceeds count e
  | batch count =>
    have hderivations := derivations_proceeds count e
    rw [perform, batch, runOn_map]
    exact hderivations
  | select symbol index => exact .rest rfl
  | expand symbol => exact .rest (memory_expand symbol e)
  | statistics samples => exact statistics_proceeds samples e

/-- **So does a sequence of operations.** -/
theorem performAll_proceeds (ops : List Operation) (e : Engine σ) :
    Proceeds e (startsAll ops e) (performAll ops e) := by
  induction ops generalizing e with
  | nil => exact .rest rfl
  | cons op rest ih => exact (perform_proceeds op e).trans (ih (e.perform op))

end

/-! ## Failures, draws and memory -/

/-- The answer of an attempt, by the outcome of its derivation: a bound that was reached, and
nothing else, becomes an answer. -/
def attempted : Except Failure Derivation → Except Failure (Option Derivation)
  | .ok d => .ok (some d)
  | .error (.depthExceeded _) => .ok none
  | .error f => .error f

theorem attempt_eq (e : Engine σ) : (attempt.runOn e).1 = attempted (derive.runOn e).1 := by
  simp only [attempt, runOn_ofFunction]
  rcases derive.runOn e with ⟨f | d, e'⟩
  · cases f <;> rfl
  · rfl

/-- **An engine remembers its last derivation**, whatever was asked of it before: the trace, if the
derivation succeeded, and nothing if it failed or if there was none. Each derivation on the way
fails exactly at its bound or at a nonterminal without productions, with one draw for each
expansion; an attempt takes the bound, and nothing else, as an answer. -/
theorem history_performAll [LawfulSource σ] (g : Grammar) {D : Nat} (hD : 0 < D)
    (source : Recorded σ) :
    ∃ e, ofBound g (.int D) source = .ok e ∧ ∀ ops,
      Proceeds e (startsAll ops e) (performAll ops e) ∧
      (performAll ops e).history = ((startsAll ops e).getLast?.map trace).getD [] ∧
      (∀ symbol index, ((performAll ops e).perform (.select symbol index)).history =
        (performAll ops e).history) ∧
      (∀ symbol, ((performAll ops e).perform (.expand symbol)).history =
        (performAll ops e).history) ∧
      ∀ s ∈ startsAll ops e, s.RunsWithin g D ∧
        (attempt.runOn s).1 = attempted (derive.runOn s).1 := by
  let b : DepthBound := { given := .int D, whole := D, whole_pos := hD }
  have hbound : DepthBound.ofValue (.int D) = .ok b := DepthBound.ofValue_int hD
  let e : Engine (Recorded σ) := { grammar := g, bound := b, source }
  refine ⟨e, ?_, fun ops => ?_⟩
  · rw [ofBound, hbound]
    rfl
  · have hproceeds := performAll_proceeds ops e
    refine ⟨hproceeds, hproceeds.history, fun _ _ => rfl, fun symbol => ?_,
      fun s hs => ⟨?_, attempt_eq s⟩⟩
    · exact congrArg (fun m => m.2.2) (memory_expand symbol (performAll ops e))
    · -- No operation changes the grammar or the bound.
      obtain ⟨hgrammar, hsame⟩ := Prod.mk.inj (hproceeds.setting s hs)
      have hruns : s.RunsWithin s.grammar D := runsWithin_of_eq (hsame ▸ hbound)
      rwa [hgrammar] at hruns

/-- A source whose first number ends a derivation of letters, and whose others never do. -/
def fewLetters : Recorded Script := { source := { first := 1, others := [0, 0, 0, 0] } }

/-- Within two steps, the first derivation of letters succeeds and is remembered. The second one
reaches the bound, after which nothing is remembered. -/
theorem history_of_letters :
    0 < 2 ∧ ∃ e, ofBound letters (.int (2 : Nat)) fewLetters = .ok e ∧
      (performAll [.derive] e).history.length = 2 ∧
      (performAll [.derive, .attempt] e).history = [] ∧
      ∀ s ∈ startsAll [.derive, .attempt] e, s.RunsWithin letters 2 := by
  have hD : 0 < 2 := by decide
  obtain ⟨e, he, hall⟩ := history_performAll letters hD fewLetters
  obtain ⟨-, hfirst, -⟩ := hall [.derive]
  obtain ⟨-, hboth, -, -, hruns⟩ := hall [.derive, .attempt]
  refine ⟨hD, e, he, ?_, ?_, fun s hs => (hruns s hs).1⟩
  · rw [hfirst]
    cases he
    rfl
  · rw [hboth]
    cases he
    rfl

end GrammarSuite.Engine
