/-!
# Actions

An action works on a state and may fail. The state survives a failure: what was drawn, recorded or
written before it stays so.

## Main definitions

* `Action σ ε α`: an action on states in `σ` that fails with an `ε` or returns an `α`
* `Action.runOn`: the outcome of an action and the state after it
* `Action.within`: an action on a part of the state
* `Action.outcome`: an action that returns its failure instead of failing
-/

namespace GrammarSuite

/-- An action on states in `σ` that fails with an `ε` or returns an `α`. -/
abbrev Action (σ ε α : Type) := ExceptT ε (StateM σ) α

namespace Action

variable {σ τ ε δ α β : Type}

/-- The outcome of an action, and the state after it. -/
def runOn (x : Action σ ε α) (s : σ) : Except ε α × σ := x s

/-- The action with a given outcome on each state. -/
def ofFunction (f : σ → Except ε α × σ) : Action σ ε α := f

/-- An action on a part of the state, whose failures are wrapped. -/
def within (part : σ → τ) (replace : τ → σ → σ) (wrap : δ → ε) (x : Action τ δ α) :
    Action σ ε α := fun s =>
  let (result, t) := x (part s)
  (result.mapError wrap, replace t s)

/-- An action that returns its failure instead of failing. -/
def outcome (x : Action σ ε α) : Action σ δ (Except ε α) := fun s =>
  let (result, s') := x s
  (.ok result, s')

@[simp] theorem mapError_ok (f : δ → ε) (a : α) :
    (Except.ok a : Except δ α).mapError f = .ok a := rfl

@[simp] theorem mapError_error (f : δ → ε) (e : δ) :
    (Except.error e : Except δ α).mapError f = .error (f e) := rfl

@[simp] theorem runOn_pure (a : α) (s : σ) : runOn (pure a : Action σ ε α) s = (.ok a, s) := rfl

@[simp] theorem runOn_throw (e : ε) (s : σ) :
    runOn (throw e : Action σ ε α) s = (.error e, s) := rfl

@[simp] theorem runOn_get (s : σ) : runOn (get : Action σ ε σ) s = (.ok s, s) := rfl

@[simp] theorem runOn_set (s s' : σ) : runOn (set s' : Action σ ε PUnit) s = (.ok ⟨⟩, s') := rfl

@[simp] theorem runOn_modify (f : σ → σ) (s : σ) :
    runOn (modify f : Action σ ε PUnit) s = (.ok ⟨⟩, f s) := rfl

@[simp] theorem runOn_ofFunction (f : σ → Except ε α × σ) (s : σ) : runOn (ofFunction f) s = f s :=
  rfl

/-- An action after another one runs only if the first succeeds, on the state that it left. -/
theorem runOn_bind (x : Action σ ε α) (f : α → Action σ ε β) (s : σ) :
    runOn (x >>= f) s = match runOn x s with
      | (.ok a, s') => runOn (f a) s'
      | (.error e, s') => (.error e, s') := by
  simp only [runOn, bind, ExceptT.bind, ExceptT.mk, StateT.bind, ExceptT.bindCont]
  rcases x s with ⟨_ | _, _⟩ <;> rfl

/-- A sequence succeeds exactly if both parts do, one after the other. -/
theorem runOn_bind_eq_ok {x : Action σ ε α} {f : α → Action σ ε β} {s t : σ} {b : β} :
    runOn (x >>= f) s = (.ok b, t) ↔
      ∃ a s', runOn x s = (.ok a, s') ∧ runOn (f a) s' = (.ok b, t) := by
  rw [runOn_bind]
  constructor
  · intro h
    rcases hx : runOn x s with ⟨e | a, s'⟩
    · rw [hx] at h
      simp at h
    · rw [hx] at h
      exact ⟨a, s', rfl, h⟩
  · rintro ⟨a, s', hx, hf⟩
    rw [hx]
    exact hf

/-- An action on a part of the state succeeds as it does on the part. -/
theorem runOn_within_eq_ok {part : σ → τ} {replace : τ → σ → σ} {wrap : δ → ε}
    {x : Action τ δ α} {s s' : σ} {a : α} :
    runOn (within part replace wrap x) s = (.ok a, s') ↔
      ∃ t, runOn x (part s) = (.ok a, t) ∧ s' = replace t s := by
  simp only [runOn, within]
  rcases x (part s) with ⟨e | b, t⟩
  · simp
  · simp only [mapError_ok, Prod.mk.injEq, Except.ok.injEq]
    constructor
    · rintro ⟨rfl, rfl⟩
      exact ⟨t, ⟨rfl, rfl⟩, rfl⟩
    · rintro ⟨t', ⟨rfl, rfl⟩, rfl⟩
      exact ⟨rfl, rfl⟩

end Action

end GrammarSuite
