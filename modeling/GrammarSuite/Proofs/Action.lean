import GrammarSuite.Derivation.Basic
import GrammarSuite.Proofs.Random.Returns

/-!
# Failures, results and pairs of actions

What is said of actions besides that they return: which failures and which results they can have,
what of the state they leave alone, and that two of them do alike on states that are alike. Each
comes with a rule for sequences, so that it is shown of a long action part by part.

## Main definitions

* `Action.FailsOnly`: every failure of an action on a state has a property
* `Action.GivesOnly`: every result of an action has a property
* `Action.Keeps`: an action leaves what is seen of the state as it is
* `Action.Preserves`: an action keeps a property of the state
* `Action.Ensures`: what holds behind an action, and behind its failure, where something holds before
* `Action.Alike`: two actions have the same outcome on related states, and leave related states

## Main results

* `Action.FailsOnly.bind`, `Action.Keeps.bind`, `Action.Preserves.bind`, `Action.Ensures.bind`,
  `Action.Alike.bind`: the rules for sequences
-/

namespace GrammarSuite.Action

variable {σ τ υ ε δ α β : Type} {s : σ} {E : ε → Prop}

@[simp] theorem runOn_map (g : α → β) (x : Action σ ε α) (s : σ) :
    (g <$> x).runOn s = ((x.runOn s).1.map g, (x.runOn s).2) := by
  rw [map_eq_pure_bind, runOn_bind]
  rcases x.runOn s with ⟨_ | _, _⟩ <;> rfl

@[simp] theorem runOn_ofExcept (x : Except ε α) (s : σ) :
    (MonadExcept.ofExcept x : Action σ ε α).runOn s = (x, s) := by
  cases x <;> rfl

/-! ## Success -/

/-- A result that comes after another one. -/
theorem bind_eq_ok_iff {x : Except ε α} {f : α → Except ε β} {b : β} :
    (x >>= f) = .ok b ↔ ∃ a, x = .ok a ∧ f a = .ok b := by
  cases x with
  | ok a => exact ⟨fun h => ⟨a, rfl, h⟩, fun ⟨_, ha, h⟩ => Except.ok.inj ha ▸ h⟩
  | error e => exact ⟨fun h => (nomatch h), fun ⟨_, ha, _⟩ => (nomatch ha)⟩

theorem exists_eq_ok_of_any {x : Except ε α} {p : α → Bool} (h : x.toOption.any p = true) :
    ∃ a, x = .ok a ∧ p a = true := by
  cases x with
  | ok a => exact ⟨a, rfl, h⟩
  | error e => cases h

theorem mapError_eq_ok_iff {x : Except δ α} {f : δ → ε} {a : α} :
    x.mapError f = .ok a ↔ x = .ok a := by
  cases x <;> simp

theorem map_eq_ok_iff {x : Except ε α} {f : α → β} {b : β} :
    x.map f = .ok b ↔ ∃ a, x = .ok a ∧ f a = b := by
  cases x <;> simp [Except.map]

theorem Returns.of_runOn {x : Action σ ε α} {a : α} (h : (x.runOn s).1 = .ok a) :
    x.Returns s fun b t => b = a ∧ t = (x.runOn s).2 :=
  ⟨a, (x.runOn s).2, Prod.ext h rfl, rfl, rfl⟩

theorem Returns.mono {x : Action σ ε α} {P Q : α → σ → Prop} (hx : x.Returns s P)
    (h : ∀ a t, P a t → Q a t) : x.Returns s Q := by
  obtain ⟨a, t, ha, hP⟩ := hx
  exact ⟨a, t, ha, h a t hP⟩

/-! ## Failures -/

/-- A failure of a result that comes after another one. -/
theorem bind_eq_error_iff {x : Except ε α} {f : α → Except ε β} {e : ε} :
    (x >>= f) = .error e ↔ x = .error e ∨ ∃ a, x = .ok a ∧ f a = .error e := by
  cases x with
  | ok a =>
    refine ⟨fun h => .inr ⟨a, rfl, h⟩, ?_⟩
    rintro (h | ⟨_, ha, h⟩)
    · cases h
    · exact Except.ok.inj ha ▸ h
  | error e' =>
    refine ⟨fun h => .inl (congrArg Except.error (Except.error.inj h)), ?_⟩
    rintro (h | ⟨_, ha, _⟩)
    · exact congrArg Except.error (Except.error.inj h)
    · cases ha

/-- Every failure of an action on a state has a property. -/
def FailsOnly (x : Action σ ε α) (s : σ) (E : ε → Prop) : Prop :=
  ∀ e t, x.runOn s = (.error e, t) → E e

theorem FailsOnly.pure (a : α) : FailsOnly (Pure.pure a : Action σ ε α) s E := by
  intro e t h
  simp at h

theorem FailsOnly.throw {e : ε} (h : E e) : FailsOnly (MonadExcept.throw e : Action σ ε α) s E := by
  intro e' t h'
  obtain ⟨rfl, -⟩ : e = e' ∧ s = t := by simpa using h'
  exact h

theorem Returns.failsOnly {x : Action σ ε α} {Q : α → σ → Prop} (h : x.Returns s Q) :
    x.FailsOnly s E := by
  obtain ⟨a, t, ha, -⟩ := h
  intro e t' he
  rw [ha] at he
  cases he

theorem FailsOnly.mono {x : Action σ ε α} {F : ε → Prop} (h : x.FailsOnly s E)
    (hF : ∀ e, E e → F e) : x.FailsOnly s F :=
  fun e t he => hF e (h e t he)

/-- A sequence fails as its first part does, or as its second part does on what the first one
returns. -/
theorem FailsOnly.bind {x : Action σ ε α} {f : α → Action σ ε β} (hx : x.FailsOnly s E)
    (hf : ∀ a t, x.runOn s = (.ok a, t) → (f a).FailsOnly t E) : (x >>= f).FailsOnly s E := by
  intro e t h
  rw [runOn_bind] at h
  rcases hrun : x.runOn s with ⟨e' | a, s'⟩
  · rw [hrun] at h
    obtain ⟨rfl, rfl⟩ : e' = e ∧ s' = t := by simpa using h
    exact hx _ _ hrun
  · rw [hrun] at h
    exact hf a s' hrun e t h

/-- An action on a part of the state fails as it does on the part, up to the wrapping. -/
theorem FailsOnly.within {part : σ → τ} {replace : τ → σ → σ} {wrap : δ → ε} {x : Action τ δ α}
    {F : δ → Prop} (hx : x.FailsOnly (part s) F) (h : ∀ e, F e → E (wrap e)) :
    (Action.within part replace wrap x).FailsOnly s E := by
  intro e t he
  rcases hrun : x (part s) with ⟨e' | a, t'⟩
  · obtain ⟨rfl, -⟩ : wrap e' = e ∧ replace t' s = t := by
      simpa [Action.within, runOn, hrun] using he
    exact h e' (hx e' t' hrun)
  · simp [Action.within, runOn, hrun] at he

/-! ## Results -/

/-- Every result of an action has a property, on whatever state it is run. -/
def GivesOnly (x : Action σ ε α) (P : α → Prop) : Prop :=
  ∀ s a t, x.runOn s = (.ok a, t) → P a

variable {P : β → Prop}

theorem GivesOnly.pure {b : β} (h : P b) : GivesOnly (Pure.pure b : Action σ ε β) P := by
  intro s b' t h'
  obtain ⟨rfl, -⟩ : b = b' ∧ s = t := by simpa using h'
  exact h

theorem GivesOnly.throw (e : ε) : GivesOnly (MonadExcept.throw e : Action σ ε β) P := by
  intro s b t h
  simp at h

/-- A sequence gives what its second part gives after a result of the first one. -/
theorem GivesOnly.bind_of {x : Action σ ε α} {k : α → Action σ ε β} {R : α → Prop}
    (hx : x.GivesOnly R) (hk : ∀ a, R a → (k a).GivesOnly P) : (x >>= k).GivesOnly P := by
  intro s b t h
  obtain ⟨a, s', ha, hb⟩ := runOn_bind_eq_ok.1 h
  exact hk a (hx s a s' ha) s' b t hb

/-- A sequence gives what its second part gives. -/
theorem GivesOnly.bind {x : Action σ ε α} {k : α → Action σ ε β} (hk : ∀ a, (k a).GivesOnly P) :
    (x >>= k).GivesOnly P :=
  GivesOnly.bind_of (R := fun _ => True) (fun _ _ _ _ => trivial) fun a _ => hk a

/-! ## What is left alone -/

/-- An action leaves what a function shows of the state as it is, whether it fails or not. -/
def Keeps (f : σ → υ) (x : Action σ ε α) : Prop := ∀ s, f (x.runOn s).2 = f s

variable {f : σ → υ}

theorem Keeps.pure (a : α) : Keeps f (Pure.pure a : Action σ ε α) := fun _ => rfl

theorem Keeps.throw (e : ε) : Keeps f (MonadExcept.throw e : Action σ ε α) := fun _ => rfl

theorem keeps_modify {g : σ → σ} (h : ∀ s, f (g s) = f s) :
    Keeps f (modify g : Action σ ε PUnit) := h

theorem Keeps.bind {x : Action σ ε α} {k : α → Action σ ε β} (hx : Keeps f x)
    (hk : ∀ a, Keeps f (k a)) : Keeps f (x >>= k) := by
  intro s
  have hkept := hx s
  rw [runOn_bind]
  rcases hrun : x.runOn s with ⟨e | a, t⟩
  · rw [hrun] at hkept
    exact hkept
  · rw [hrun] at hkept
    exact (hk a t).trans hkept

/-- A sequence leaves what its first part left, if the second part leaves that alone. -/
theorem Keeps.after {x : Action σ ε α} {k : α → Action σ ε β} (hk : ∀ a, Keeps f (k a)) (s : σ) :
    f ((x >>= k).runOn s).2 = f (x.runOn s).2 := by
  rw [runOn_bind]
  rcases x.runOn s with ⟨e | a, t⟩
  · rfl
  · exact hk a t

/-- An action on a part of the state leaves alone what is seen apart from the part. -/
theorem Keeps.within {part : σ → τ} {replace : τ → σ → σ} {wrap : δ → ε} {x : Action τ δ α}
    (h : ∀ t s, f (replace t s) = f s) : Keeps f (Action.within part replace wrap x) :=
  fun s => h _ s

/-! ## What is kept -/

/-- An action keeps a property of the state, whether it fails or not. -/
def Preserves (I : σ → Prop) (x : Action σ ε α) : Prop := ∀ s, I s → I (x.runOn s).2

variable {I : σ → Prop}

theorem Preserves.pure (a : α) : Preserves I (Pure.pure a : Action σ ε α) := fun _ h => h

theorem Preserves.throw (e : ε) : Preserves I (MonadExcept.throw e : Action σ ε α) := fun _ h => h

theorem preserves_modify {g : σ → σ} (h : ∀ s, I s → I (g s)) :
    Preserves I (modify g : Action σ ε PUnit) := h

theorem Preserves.bind {x : Action σ ε α} {k : α → Action σ ε β} (hx : Preserves I x)
    (hk : ∀ a, Preserves I (k a)) : Preserves I (x >>= k) := by
  intro s h
  have hkept := hx s h
  rw [runOn_bind]
  rcases hrun : x.runOn s with ⟨e | a, t⟩
  · rw [hrun] at hkept
    exact hkept
  · rw [hrun] at hkept
    exact hk a t hkept

theorem Preserves.forM {f : α → Action σ ε PUnit} (hf : ∀ a, Preserves I (f a)) (items : List α) :
    Preserves I (items.forM f) := by
  induction items with
  | nil => exact .pure _
  | cons a items ih => exact (hf a).bind fun _ => ih

/-- What is done on the state itself may rest on the property. -/
theorem Preserves.get_bind {k : σ → Action σ ε β} (hk : ∀ s, I s → I ((k s).runOn s).2) :
    Preserves I (get >>= k) := hk

/-- An action that returns its failure keeps what the action keeps. -/
theorem Preserves.outcome {x : Action σ ε α} (hx : Preserves I x) :
    Preserves I (x.outcome : Action σ δ (Except ε α)) := hx

/-- An action on a part of the state keeps what holds of the state by this part. -/
theorem Preserves.within {part : σ → τ} {replace : τ → σ → σ} {wrap : δ → ε} {x : Action τ δ α}
    {J : τ → Prop} (hx : Preserves J x) (hpart : ∀ s, I s → J (part s))
    (hreplace : ∀ t s, I s → J t → I (replace t s)) :
    Preserves I (Action.within part replace wrap x) :=
  fun s h => hreplace _ s h (hx _ (hpart s h))

/-! ## What is ensured -/

/-- Where something holds of the state before an action, something holds of its result and the state
behind it, or of its failure and the state behind that. -/
def Ensures (P : σ → Prop) (x : Action σ ε α) (Q : α → σ → Prop) (F : ε → σ → Prop) : Prop :=
  ∀ s, P s → (∀ a t, x.runOn s = (.ok a, t) → Q a t) ∧ ∀ e t, x.runOn s = (.error e, t) → F e t

variable {P : σ → Prop} {Q : α → σ → Prop} {F : ε → σ → Prop}

theorem Ensures.pure {a : α} (h : ∀ s, P s → Q a s) :
    Ensures P (Pure.pure a : Action σ ε α) Q F := by
  intro s hs
  refine ⟨fun a' t h' => ?_, fun e t h' => by simp at h'⟩
  obtain ⟨rfl, rfl⟩ : a = a' ∧ s = t := by simpa using h'
  exact h s hs

theorem Ensures.throw {e : ε} (h : ∀ s, P s → F e s) :
    Ensures P (MonadExcept.throw e : Action σ ε α) Q F := by
  intro s hs
  refine ⟨fun a t h' => by simp at h', fun e' t h' => ?_⟩
  obtain ⟨rfl, rfl⟩ : e = e' ∧ s = t := by simpa using h'
  exact h s hs

theorem ensures_modify {g : σ → σ} {R : σ → Prop} (h : ∀ s, P s → R (g s)) :
    Ensures P (modify g : Action σ ε PUnit) (fun _ => R) F := by
  intro s hs
  refine ⟨fun a t h' => ?_, fun e t h' => by simp at h'⟩
  obtain rfl : g s = t := by simpa using h'
  exact h s hs

/-- What holds behind the first part of a sequence holds before the second one. -/
theorem Ensures.bind {x : Action σ ε α} {k : α → Action σ ε β} {R : β → σ → Prop}
    (hx : Ensures P x Q F) (hk : ∀ a, Ensures (Q a) (k a) R F) : Ensures P (x >>= k) R F := by
  intro s hs
  obtain ⟨hok, herror⟩ := hx s hs
  rw [runOn_bind]
  rcases hrun : x.runOn s with ⟨e | a, t⟩
  · refine ⟨fun b u h => by simp at h, fun e' u h => ?_⟩
    obtain ⟨rfl, rfl⟩ : e = e' ∧ t = u := by simpa using h
    exact herror e t hrun
  · exact hk a t (hok a t hrun)

/-- A sequence ends with its first part where that has no result. -/
theorem Ensures.bind_ended {x : Action σ ε α} {R : β → σ → Prop}
    (hx : Ensures P x (fun _ _ => False) F) (k : α → Action σ ε β) : Ensures P (x >>= k) R F :=
  hx.bind fun _ _ h => h.elim

/-- What is done on the state itself may rest on what holds of it. -/
theorem Ensures.get_bind {k : σ → Action σ ε β} {R : β → σ → Prop}
    (hk : ∀ s, P s → (k s).Ensures (fun t => t = s) R F) : Ensures P (get >>= k) R F :=
  fun s hs => hk s hs s rfl

/-- A result that was found before. -/
theorem ensures_ofExcept {x : Except ε α} (hP : ∀ e s, P s → F e s) :
    Ensures P (MonadExcept.ofExcept x : Action σ ε α) (fun a s => x = .ok a ∧ P s) F := by
  cases x with
  | ok a => exact .pure fun s hs => ⟨rfl, hs⟩
  | error e => exact .throw fun s hs => hP e s hs

theorem Ensures.mono {x : Action σ ε α} {P' : σ → Prop} {Q' : α → σ → Prop} {F' : ε → σ → Prop}
    (h : Ensures P x Q F) (hP : ∀ s, P' s → P s) (hQ : ∀ a s, Q a s → Q' a s)
    (hF : ∀ e s, F e s → F' e s) : Ensures P' x Q' F' := by
  intro s hs
  obtain ⟨hok, herror⟩ := h s (hP s hs)
  exact ⟨fun a t hrun => hQ a t (hok a t hrun), fun e t hrun => hF e t (herror e t hrun)⟩

/-- What holds whatever the state is may be used. -/
theorem Ensures.of_and {x : Action σ ε α} {p : Prop} (h : p → Ensures P x Q F) :
    Ensures (fun s => p ∧ P s) x Q F := fun s hs => h hs.1 s hs.2

/-- What is kept holds behind an action, whether it fails or not. -/
theorem Preserves.ensures {x : Action σ ε α} (h : Preserves I x) :
    Ensures I x (fun _ => I) (fun _ => I) := by
  intro s hs
  have hkept := h s hs
  refine ⟨fun a t hrun => ?_, fun e t hrun => ?_⟩ <;> rw [hrun] at hkept <;> exact hkept

/-- What holds behind an action, whether it fails or not, holds of the state that it leaves. -/
theorem Ensures.leaves {x : Action σ ε α} {R : σ → Prop} (h : Ensures P x (fun _ => R) fun _ => R)
    (hs : P s) : R (x.runOn s).2 := by
  obtain ⟨hok, herror⟩ := h s hs
  rcases hrun : x.runOn s with ⟨e | a, t⟩
  · exact herror e t hrun
  · exact hok a t hrun

theorem Ensures.preserves {x : Action σ ε α} (h : Ensures I x (fun _ => I) fun _ => I) :
    Preserves I x := fun _ hs => h.leaves hs

/-! ## Pairs of actions -/

/-- Two actions have the same outcome on related states, and leave related states. -/
def Alike (R : σ → τ → Prop) (x : Action σ ε α) (y : Action τ ε α) : Prop :=
  ∀ s t, R s t → (x.runOn s).1 = (y.runOn t).1 ∧ R (x.runOn s).2 (y.runOn t).2

variable {R : σ → τ → Prop}

theorem Alike.pure (a : α) :
    Alike R (Pure.pure a : Action σ ε α) (Pure.pure a : Action τ ε α) :=
  fun _ _ h => ⟨rfl, h⟩

theorem Alike.throw (e : ε) :
    Alike R (MonadExcept.throw e : Action σ ε α) (MonadExcept.throw e : Action τ ε α) :=
  fun _ _ h => ⟨rfl, h⟩

theorem Alike.bind {x : Action σ ε α} {y : Action τ ε α} {k : α → Action σ ε β}
    {l : α → Action τ ε β} (hx : Alike R x y) (hk : ∀ a, Alike R (k a) (l a)) :
    Alike R (x >>= k) (y >>= l) := by
  intro s t h
  obtain ⟨hout, hrel⟩ := hx s t h
  rw [runOn_bind, runOn_bind]
  rcases hs : x.runOn s with ⟨e | a, s'⟩ <;> rcases ht : y.runOn t with ⟨e' | b, t'⟩ <;>
    rw [hs, ht] at hout hrel
  · exact ⟨congrArg Except.error (Except.error.inj hout), hrel⟩
  · cases hout
  · cases hout
  · obtain rfl := Except.ok.inj hout
    exact hk a s' t' hrel

/-- What is done on the state itself is alike if it is so for each two related states. -/
theorem Alike.get_bind {k : σ → Action σ ε β} {l : τ → Action τ ε β}
    (hk : ∀ s t, R s t → Alike R (k s) (l t)) : Alike R (get >>= k) (get >>= l) :=
  fun s t h => hk s t h s t h

theorem alike_modify {f : σ → σ} {g : τ → τ} (h : ∀ s t, R s t → R (f s) (g t)) :
    Alike R (modify f : Action σ ε PUnit) (modify g : Action τ ε PUnit) :=
  fun s t hst => ⟨rfl, h s t hst⟩

end GrammarSuite.Action

namespace GrammarSuite.Failure

open GrammarSuite.Action

variable {σ υ α : Type}

theorem required_keeps {f : σ → υ} (r : Except Json.Misuse α) :
    (required r : Action σ Failure α).Keeps f := by
  cases r with
  | ok a => exact .pure a
  | error m => exact .throw _

end GrammarSuite.Failure
