import GrammarSuite.Proofs.Derivation.Minimal
import Mathlib.Data.Nat.Find

/-!
# The shortest derivations

The minimal derivation looks at one production at a time: at the number of nonterminals in its body
and at the length of the body, but not at how many expansions these nonterminals take. So it need
not be the shortest derivation, and may have no end where others have one. It is the shortest one
exactly if, wherever it takes a production, no other production of the same nonterminal comes to an
end in fewer expansions.

The expansions of a form are those of its parts together, in whatever order they are taken. This
carries both directions: a detour at one nonterminal makes the whole derivation longer, and where
there is no detour a shortest derivation can be changed into the minimal one step by step.

## Main definitions

* `Grammar.EndsIn`: a form is rewritten to a terminal one in a number of expansions
* `Grammar.Meets`: the nonterminals that the minimal derivation expands
* `Grammar.IsDirectAt`: no production of a nonterminal ends sooner than the simplest one
* `Grammar.NoneShallower`: no engine returns a derivation of less depth

## Main results

* `Grammar.endsIn_append_iff`: the expansions of a form are those of its parts
* `Grammar.endsIn_iff_derived`: the derivations of engines are as long as the start symbol takes
  expansions
* `Grammar.minimal_is_shallowest_iff`: when the minimal derivation is the shallowest one
-/

namespace GrammarSuite.Grammar

open GrammarSuite.Random

open Json (Value)

variable {g : Grammar} {form next rest before after : Form} {name : String} {yield : List String}
  {n m : Nat}

/-! ## Expansions in any order -/

/-- A form is rewritten to a terminal form in a number of expansions, which may be taken in any
order. -/
inductive EndsIn (g : Grammar) : Form → Nat → Prop
  | done {form : Form} (h : form.hasNonterminal = false) : EndsIn g form 0
  | step {form next : Form} {n : Nat} (h : g.Produces form next) (hrest : EndsIn g next n) :
      EndsIn g form (n + 1)

/-- What stands around a form stays when the form is rewritten. -/
theorem Produces.between (h : g.Produces form next) (before after : Form) :
    g.Produces (before ++ form ++ after) (before ++ next ++ after) := by
  obtain ⟨p, hp, front, back, rfl, rfl⟩ := h
  exact ⟨p, hp, before ++ front, back ++ after, by simp, by simp⟩

/-- A form of two parts is rewritten in one of them. -/
theorem produces_append_iff :
    g.Produces (form ++ rest) next ↔
      (∃ form', g.Produces form form' ∧ next = form' ++ rest) ∨
        ∃ rest', g.Produces rest rest' ∧ next = form ++ rest' := by
  constructor
  · rintro ⟨p, hp, front, back, heq, rfl⟩
    rcases List.append_eq_append_iff.1 heq with ⟨middle, rfl, rfl⟩ | ⟨middle, rfl, hback⟩
    · exact .inr ⟨_, ⟨p, hp, middle, back, rfl, rfl⟩, by simp⟩
    · -- The head stands at the end of the first part or at the start of the second one.
      cases middle with
      | nil =>
        obtain rfl : rest = p.headSymbol :: back := hback.symm
        exact .inr ⟨_, ⟨p, hp, [], back, rfl, rfl⟩, by simp⟩
      | cons s middle =>
        obtain ⟨rfl, rfl⟩ := List.cons.inj hback
        exact .inl ⟨_, ⟨p, hp, front, middle, rfl, rfl⟩, by simp⟩
  · rintro (⟨form', h, rfl⟩ | ⟨rest', h, rfl⟩)
    · simpa using h.between [] rest
    · simpa using h.between form []

theorem not_produces_of_terminal (h : form.hasNonterminal = false) : ¬ g.Produces form next := by
  rintro ⟨p, -, front, back, rfl, -⟩
  simp [Form.hasNonterminal, Production.headSymbol, Symbol.isNonterminal] at h

theorem endsIn_of_terminal_iff (h : form.hasNonterminal = false) : g.EndsIn form n ↔ n = 0 := by
  constructor
  · intro hends
    cases hends with
    | done => rfl
    | step hproduces => exact absurd hproduces (not_produces_of_terminal h)
  · rintro rfl
    exact .done h

/-- **The expansions of a form are those of its parts**, whatever their order. -/
theorem endsIn_append_iff :
    g.EndsIn (form ++ rest) n ↔ ∃ i j, g.EndsIn form i ∧ g.EndsIn rest j ∧ n = i + j := by
  constructor
  · intro h
    -- Induction on the expansions. Each of them belongs to one of the parts.
    induction n generalizing form rest with
    | zero =>
      cases h with
      | done h =>
        rw [Form.hasNonterminal, List.any_append, Bool.or_eq_false_iff] at h
        exact ⟨0, 0, .done h.1, .done h.2, rfl⟩
    | succ n ih =>
      cases h with
      | step hproduces hrest =>
        rcases produces_append_iff.1 hproduces with ⟨form', hform, rfl⟩ | ⟨rest', hform, rfl⟩
        · obtain ⟨i, j, hi, hj, rfl⟩ := ih hrest
          exact ⟨i + 1, j, .step hform hi, hj, by omega⟩
        · obtain ⟨i, j, hi, hj, rfl⟩ := ih hrest
          exact ⟨i, j + 1, hi, .step hform hj, by omega⟩
  · rintro ⟨i, j, hi, hj, rfl⟩
    induction hi with
    | @done form h =>
      rw [Nat.zero_add]
      induction hj with
      | @done rest h' =>
        refine .done ?_
        rw [Form.hasNonterminal, List.any_append, Bool.or_eq_false_iff]
        exact ⟨h, h'⟩
      | step hproduces _ ih => exact .step (produces_append_iff.2 (.inr ⟨_, hproduces, rfl⟩)) ih
    | step hproduces _ ih =>
      rw [Nat.add_right_comm]
      exact .step (produces_append_iff.2 (.inl ⟨_, hproduces, rfl⟩)) ih

/-- A nonterminal takes one expansion more than the body of one of its productions. -/
theorem endsIn_nonterminal_iff :
    g.EndsIn [.nonterminal name] n ↔
      ∃ p ∈ g.productions, p.head = name ∧ ∃ m, g.EndsIn p.body m ∧ n = m + 1 := by
  constructor
  · intro h
    cases h with
    | done h => simp at h
    | @step _ _ m hproduces hrest =>
      obtain ⟨p, hp, front, back, heq, rfl⟩ := hproduces
      cases front with
      | nil =>
        obtain ⟨hname, rfl⟩ : name = p.head ∧ back = [] := by
          simpa [Production.headSymbol] using heq
        exact ⟨p, hp, hname.symm, m, by simpa using hrest, rfl⟩
      | cons s front => simp at heq
  · rintro ⟨p, hp, rfl, m, hbody, rfl⟩
    exact .step ⟨p, hp, [], [], rfl, by simp⟩ hbody

/-- Wherever a nonterminal of a form is expanded, one expansion fewer is left. -/
theorem endsIn_expand_iff :
    g.EndsIn (before ++ .nonterminal name :: after) n ↔
      ∃ p ∈ g.productions, p.head = name ∧
        ∃ m, g.EndsIn (before ++ p.body ++ after) m ∧ n = m + 1 := by
  rw [← List.singleton_append]
  simp only [List.append_assoc, @endsIn_append_iff g before, @endsIn_append_iff g _ after,
    endsIn_nonterminal_iff]
  constructor
  · rintro ⟨i, _, hi, ⟨_, k, ⟨p, hp, hhead, j, hj, rfl⟩, hk, rfl⟩, rfl⟩
    exact ⟨p, hp, hhead, i + (j + k), ⟨i, j + k, hi, ⟨j, k, hj, hk, rfl⟩, rfl⟩, by omega⟩
  · rintro ⟨p, hp, hhead, _, ⟨i, _, hi, ⟨j, k, hj, hk, rfl⟩, rfl⟩, rfl⟩
    exact ⟨i, j + 1 + k, hi, ⟨j + 1, k, ⟨p, hp, hhead, j, hj, rfl⟩, hk, rfl⟩, by omega⟩

/-- The tree of simplest productions is one way to come to an end. -/
theorem Unfolds.endsIn (h : g.Unfolds form yield n) : g.EndsIn form n := by
  induction h with
  | nil => exact .done rfl
  | @terminal name rest yield n _ ih =>
    have hname : g.EndsIn [.terminal name] 0 := .done rfl
    exact endsIn_append_iff.2 ⟨0, n, hname, ih, (Nat.zero_add n).symm⟩
  | @nonterminal name p rest yield yield' n n' hp _ _ ihbody ihrest =>
    obtain ⟨hmem, hhead⟩ := mem_of_choice? hp
    have hname : g.EndsIn [.nonterminal name] (n + 1) :=
      endsIn_nonterminal_iff.2 ⟨p, hmem, hhead, n, ihbody, rfl⟩
    exact endsIn_append_iff.2 ⟨n + 1, n', hname, ihrest, by omega⟩

/-! ## Derivations of engines -/

/-- The steps of a leftmost derivation are expansions. -/
theorem Leads.endsIn {bound taken : Nat} {steps : List Step}
    (h : g.Leads bound taken form steps) : g.EndsIn form steps.length := by
  induction h with
  | done hform => exact .done hform
  | step hadvances _ ih => exact .step hadvances.produces ih

/-- Expansions can be taken from the left. A bound of three times their number leaves them so many
steps that no production is avoided. -/
theorem EndsIn.exists_leads {taken total : Nat} (h : g.EndsIn form n) (hn : taken + n ≤ total) :
    ∃ steps, g.Leads (3 * total) taken form steps ∧ steps.length = n := by
  induction n generalizing form taken with
  | zero =>
    cases h with
    | done hform => exact ⟨[], .done hform, rfl⟩
  | succ n ih =>
    rcases hsplit : form.splitFirst? with _ | ⟨front, head, back⟩
    · have hform := Form.splitFirst?_eq_none_iff.1 hsplit
      exact absurd ((endsIn_of_terminal_iff hform).1 h) (Nat.succ_ne_zero n)
    · obtain ⟨rfl, hfront⟩ := Form.splitFirst?_eq_some hsplit
      obtain ⟨p, hp, rfl, m, hm, hsame⟩ := endsIn_expand_iff.1 h
      obtain rfl : n = m := Nat.succ.inj hsame
      have htaken : taken + 1 + n ≤ total := by omega
      obtain ⟨steps, hleads, hlength⟩ := ih hm htaken
      refine ⟨⟨front ++ p.body ++ back, some p⟩ :: steps, .step ?_ hleads, by
        rw [List.length_cons, hlength]⟩
      refine ⟨p, hp, rfl, ⟨front, back, hfront, rfl, rfl⟩, fun hpressure => ?_⟩
      have hthird : 3 * total / 3 = total := Nat.mul_div_cancel_left total (by decide)
      omega

/-- A derivation of an engine has one form more than it takes expansions. -/
theorem exists_endsIn_of_derive {σ : Type} [Source σ] {e e' : Engine σ} {d : Derivation}
    (h : Engine.derive.runOn e = (.ok d, e')) :
    ∃ n, e.grammar.EndsIn [e.grammar.start] n ∧ d.depth = n + 1 := by
  obtain ⟨steps, source, hsteps, rfl, -⟩ := Engine.derive_eq_ok_iff.1 h
  obtain ⟨hleads, -⟩ := Engine.leads_of_expandAll hsteps (Nat.zero_add _)
  exact ⟨steps.length, hleads.endsIn, rfl⟩

/-- **As many expansions as the start symbol can take, an engine takes** for some numbers, if its
bound is large enough. -/
theorem EndsIn.exists_derive (h : g.EndsIn [g.start] n) :
    ∃ (D : Nat) (e e' : Engine (Recorded Script)) (d : Derivation), e.grammar = g ∧
      DepthBound.ofValue (.int D) = .ok e.bound ∧ Engine.derive.runOn e = (.ok d, e') ∧
      d.depth = n + 1 := by
  have hpos : 0 < 3 * (n + 1) := by omega
  have htaken : 0 + n ≤ n + 1 := by omega
  obtain ⟨steps, hleads, hlength⟩ := h.exists_leads htaken
  obtain ⟨first, others, e, e', d, he, hderive, rfl, -⟩ :=
    Engine.exists_script_of_leads hpos hleads (by omega)
  have hbound : DepthBound.ofValue (.int (3 * (n + 1) : Nat)) = .ok e.bound := by
    simp only [Engine.ofBound, DepthBound.ofValue_int hpos, Except.map, Except.ok.injEq] at he
    rw [DepthBound.ofValue_int hpos, ← he]
  refine ⟨3 * (n + 1), e, e', _, (Engine.eq_of_ofBound he).1, hbound, hderive, ?_⟩
  simp [Engine.finish, Derivation.depth, hlength]

/-! ## Detours -/

/-- The nonterminals that the minimal derivation expands: the start symbol, and those in the simplest
productions of what is expanded. -/
inductive Meets (g : Grammar) : String → Prop
  | start {name : String} (h : g.start = .nonterminal name) : Meets g name
  | body {name next : String} {p : Production} (h : Meets g name) (hp : g.choice? name = some p)
      (hmem : .nonterminal next ∈ p.body) : Meets g next

/-- No production of a nonterminal comes to an end in fewer expansions than the simplest one can. -/
def IsDirectAt (g : Grammar) (name : String) : Prop :=
  ∀ q ∈ g.productions, q.head = name → ∀ m, g.EndsIn q.body m →
    ∃ p, g.choice? name = some p ∧ ∃ k ≤ m, g.EndsIn p.body k

/-- No engine returns a derivation of less depth, whatever its bound and its source are. -/
def NoneShallower (g : Grammar) (depth : Nat) : Prop :=
  ∀ {σ : Type} [Source σ] (D : Nat) (e e' : Engine σ) (d : Derivation), e.grammar = g →
    DepthBound.ofValue (.int D) = .ok e.bound → Engine.derive.runOn e = (.ok d, e') → depth ≤ d.depth

theorem noneShallower_iff :
    g.NoneShallower (n + 1) ↔ ∀ m, g.EndsIn [g.start] m → n ≤ m := by
  constructor
  · intro h m hm
    obtain ⟨D, e, e', d, he, hbound, hderive, hdepth⟩ := hm.exists_derive
    have := h D e e' d he hbound hderive
    omega
  · intro h σ _ D e e' d he _ hderive
    obtain ⟨m, hm, hdepth⟩ := exists_endsIn_of_derive hderive
    have := h m (he ▸ hm)
    omega

/-- A tree with the fewest expansions has only such trees in it. -/
theorem Meets.exists_least (h : g.Meets name) (htree : g.Unfolds [g.start] yield n)
    (hleast : ∀ m, g.EndsIn [g.start] m → n ≤ m) :
    ∃ yield' k, g.Unfolds [.nonterminal name] yield' k ∧
      ∀ m, g.EndsIn [.nonterminal name] m → k ≤ m := by
  induction h with
  | start hstart =>
    rw [hstart] at htree hleast
    exact ⟨yield, n, htree, hleast⟩
  | @body name next p _ hp hmem ih =>
    obtain ⟨_, k, hname, hshort⟩ := ih
    obtain ⟨before, after, hbody⟩ := List.append_of_mem hmem
    cases hname with
    | @nonterminal _ p' _ _ _ k k' hp' htree' hnil =>
      rw [hp] at hp'
      obtain rfl := Option.some.inj hp'
      obtain ⟨-, rfl⟩ := hnil.unique .nil
      -- The tree of the body has one for `next` in it, which a shorter one could take the place of.
      rw [hbody, ← List.singleton_append] at htree'
      obtain ⟨_, i, _, _, hbefore, hrest, -, rfl⟩ := unfolds_append_iff.1 htree'
      obtain ⟨_, j, _, l, hnext, hafter, -, rfl⟩ := unfolds_append_iff.1 hrest
      refine ⟨_, j, hnext, fun m hm => ?_⟩
      obtain ⟨hmem, hhead⟩ := mem_of_choice? hp
      have hother : g.EndsIn p.body (i + (m + l)) := by
        rw [hbody, ← List.singleton_append]
        exact endsIn_append_iff.2 ⟨i, m + l, hbefore.endsIn,
          endsIn_append_iff.2 ⟨m, l, hm, hafter.endsIn, rfl⟩, rfl⟩
      have := hshort _ (endsIn_nonterminal_iff.2 ⟨p, hmem, hhead, _, hother, rfl⟩)
      omega

/-- Where a nonterminal has a tree with the fewest expansions, its simplest production is no
detour. -/
theorem Unfolds.isDirectAt {k : Nat} (h : g.Unfolds [.nonterminal name] yield k)
    (hleast : ∀ m, g.EndsIn [.nonterminal name] m → k ≤ m) : g.IsDirectAt name := by
  intro q hq hhead m hm
  have hk := hleast _ (endsIn_nonterminal_iff.2 ⟨q, hq, hhead, m, hm, rfl⟩)
  cases h with
  | @nonterminal _ p _ _ _ k k' hp hbody hnil => exact ⟨p, hp, k, by omega, hbody.endsIn⟩

/-- **Without detours the fewest expansions are those of the tree of simplest productions.** -/
theorem EndsIn.exists_unfolds (h : g.EndsIn form n) (hleast : ∀ m, g.EndsIn form m → n ≤ m)
    (hmeets : ∀ name, .nonterminal name ∈ form → g.Meets name)
    (hdirect : ∀ name, g.Meets name → g.IsDirectAt name) : ∃ yield, g.Unfolds form yield n := by
  -- Induction on the expansions: the first nonterminal can be expanded by its simplest production
  -- as well, and then one expansion fewer is still the least number.
  induction n generalizing form with
  | zero =>
    cases h with
    | done hform => exact ⟨_, unfolds_of_terminal hform⟩
  | succ n ih =>
    rcases hsplit : form.splitFirst? with _ | ⟨before, head, after⟩
    · have hform := Form.splitFirst?_eq_none_iff.1 hsplit
      exact absurd ((endsIn_of_terminal_iff hform).1 h) (Nat.succ_ne_zero n)
    · obtain ⟨rfl, -⟩ := Form.splitFirst?_eq_some hsplit
      obtain ⟨q, hq, hhead, m, hm, hsame⟩ := endsIn_expand_iff.1 h
      obtain rfl : n = m := Nat.succ.inj hsame
      have hhere : g.Meets head := hmeets head (by simp)
      rw [List.append_assoc] at hm
      obtain ⟨i, _, hbefore, hrest, hi⟩ := endsIn_append_iff.1 hm
      obtain ⟨j, l, hbody, hafter, hj⟩ := endsIn_append_iff.1 hrest
      obtain ⟨p, hp, k, hk, hsimplest⟩ := hdirect head hhere q hq hhead j hbody
      obtain ⟨hmem, hname⟩ := mem_of_choice? hp
      have hother : g.EndsIn (before ++ p.body ++ after) (i + (k + l)) := by
        rw [List.append_assoc]
        exact endsIn_append_iff.2 ⟨i, k + l, hbefore,
          endsIn_append_iff.2 ⟨k, l, hsimplest, hafter, rfl⟩, rfl⟩
      have hexpand : ∀ m, g.EndsIn (before ++ p.body ++ after) m → n ≤ m := by
        intro m hm
        have := hleast _ (endsIn_expand_iff.2 ⟨p, hmem, hname, m, hm, rfl⟩)
        omega
      obtain rfl : i + (k + l) = n := by
        have := hexpand _ hother
        omega
      obtain ⟨yield, htree⟩ := ih hother hexpand fun name hmem => by
        simp only [List.mem_append] at hmem
        rcases hmem with (hmem | hmem) | hmem
        · exact hmeets name (by simp [hmem])
        · exact .body hhere hp hmem
        · exact hmeets name (by simp [hmem])
      exact ⟨yield, unfolds_expand_iff.2 ⟨p, _, hp, htree, rfl⟩⟩

/-- What is found for the shallowest string has the tree of simplest productions, and the depth of a
derivation that takes as many expansions. -/
theorem exists_unfolds_of_find {σ : Type} [Source σ] {f f' : Finder σ} {r : Extreme}
    (h : (Finder.find .minDepth).runOn f = (.ok r, f')) :
    ∃ yield n, f.grammar.Unfolds [f.grammar.start] yield n ∧ r.depth = .int (n + 1 : Nat) := by
  rcases hminimal : f.grammar.minimalDerivation minimalStepLimit with e | ⟨text, n⟩
  · simp [Finder.find, Finder.shallowest, Action.runOn_bind, hminimal] at h
  · obtain ⟨yield, htree, -, -⟩ := minimalDerivation_eq_ok_iff.1 hminimal
    simp only [Finder.find, Finder.shallowest, Action.runOn_bind, Action.runOn_get, hminimal,
      Action.runOn_pure, Prod.mk.injEq, Except.ok.injEq] at h
    obtain ⟨rfl, -⟩ := h
    exact ⟨yield, n, htree, rfl⟩

/-- **The minimal derivation is the shallowest one exactly if it takes no detour.** Where the start
symbol can be rewritten to a terminal form in no more than the usual limit of expansions, the search
for the shallowest string finds one, and no engine returns a derivation of less depth, if and only if
at each nonterminal that the minimal derivation expands no other production comes to an end in fewer
expansions. -/
theorem minimal_is_shallowest_iff {σ : Type} [Source σ] {f : Finder σ}
    (h : ∃ n ≤ 1000, f.grammar.EndsIn [f.grammar.start] n) :
    (∃ r f' depth, (Finder.find .minDepth).runOn f = (.ok r, f') ∧ r.depth = .int (depth : Nat) ∧
        f.grammar.NoneShallower depth) ↔
      ∀ name, f.grammar.Meets name → f.grammar.IsDirectAt name := by
  constructor
  · rintro ⟨r, f', depth, hfind, hdepth, hnone⟩ name hname
    obtain ⟨yield, n, htree, hn⟩ := exists_unfolds_of_find hfind
    obtain rfl : depth = n + 1 := by
      rw [hdepth, Value.int.injEq] at hn
      omega
    obtain ⟨yield', k, hname', hleast⟩ := hname.exists_least htree (noneShallower_iff.1 hnone)
    exact hname'.isDirectAt hleast
  · intro hdirect
    -- There is a least number of expansions, and the minimal derivation takes as many.
    classical
    have hexists : ∃ n, f.grammar.EndsIn [f.grammar.start] n := h.imp fun n hn => hn.2
    have hleast : ∀ m, f.grammar.EndsIn [f.grammar.start] m → Nat.find hexists ≤ m :=
      fun m hm => Nat.find_min' hexists hm
    obtain ⟨yield, htree⟩ := (Nat.find_spec hexists).exists_unfolds hleast
      (fun name hname => .start (List.mem_singleton.1 hname).symm) hdirect
    obtain ⟨n, hn, hends⟩ := h
    have hlimit : Nat.find hexists ≤ 1000 := (hleast n hends).trans hn
    have hminimal : f.grammar.minimalDerivation (.int 1000) = .ok (_, Nat.find hexists) :=
      minimalDerivation_eq_ok_iff.2 ⟨yield, htree, hlimit, rfl⟩
    obtain ⟨r, hfind, -, hdepth⟩ := find_minDepth hminimal hlimit (f := f) rfl
    exact ⟨r, f, _, hfind, hdepth, noneShallower_iff.2 hleast⟩

/-- A finder with the usual bound, whose source gives nothing but zeros. -/
def usualFinder (g : Grammar) : Finder Script where
  grammar := g
  depthBound := .int 50
  source := { first := 0, others := [] }

/-- One letter is the shallowest string of repeated letters. -/
theorem letter_is_shallowest :
    (∃ n ≤ 1000, Engine.letters.EndsIn [Engine.letters.start] n) ∧
      ∃ r f' depth, (Finder.find .minDepth).runOn (usualFinder Engine.letters) = (.ok r, f') ∧
        r.depth = .int (depth : Nat) ∧ Engine.letters.NoneShallower depth := by
  have hletter : (⟨"S", [.terminal "a"]⟩ : Production) ∈ Engine.letters.productions := by
    simp [Engine.letters]
  have hends : ∃ n ≤ 1000, Engine.letters.EndsIn [Engine.letters.start] n :=
    ⟨1, by decide, .step ⟨_, hletter, [], [], rfl, rfl⟩ (.done rfl)⟩
  refine ⟨hends, (minimal_is_shallowest_iff (f := usualFinder Engine.letters) hends).2
    fun name _ q hq hhead m _ => ?_⟩
  have hname : name = "S" := by
    rcases List.mem_pair.1 hq with rfl | rfl <;> exact hhead.symm
  subst hname
  exact ⟨⟨"S", [.terminal "a"]⟩, rfl, 0, Nat.zero_le m, .done rfl⟩

/-- A grammar in which the body with the fewest nonterminals is not the one that ends soonest. -/
def detour : Grammar where
  name := .text "detour"
  nonterminals := [.nonterminal "S", .nonterminal "A", .nonterminal "B"]
  terminals := [.terminal "b"]
  productions := [⟨"S", [.nonterminal "A"]⟩, ⟨"S", [.nonterminal "B", .nonterminal "B"]⟩,
    ⟨"A", [.nonterminal "B", .nonterminal "B", .nonterminal "B"]⟩, ⟨"B", [.terminal "b"]⟩]
  start := .nonterminal "S"
  start_mem := by simp
  declared := by simp [Production.Declared, Production.headSymbol, Symbol.Declared]

/-- A grammar in which the body with the fewest nonterminals does not end at all. -/
def endless : Grammar where
  name := .text "endless"
  nonterminals := [.nonterminal "S", .nonterminal "B"]
  terminals := [.terminal "b"]
  productions := [⟨"S", [.nonterminal "S"]⟩, ⟨"S", [.nonterminal "B", .nonterminal "B"]⟩,
    ⟨"B", [.terminal "b"]⟩]
  start := .nonterminal "S"
  start_mem := by simp
  declared := by simp [Production.Declared, Production.headSymbol, Symbol.Declared]

/-- Two letters take three expansions where the start symbol has a body of two nonterminals that are
letters. -/
theorem endsIn_three (hpair : ⟨"S", [.nonterminal "B", .nonterminal "B"]⟩ ∈ g.productions)
    (hletter : ⟨"B", [.terminal "b"]⟩ ∈ g.productions) : g.EndsIn [.nonterminal "S"] 3 :=
  .step ⟨_, hpair, [], [], rfl, rfl⟩ <|
    .step ⟨_, hletter, [], [.nonterminal "B"], rfl, rfl⟩ <|
      .step ⟨_, hletter, [.terminal "b"], [], rfl, rfl⟩ (.done rfl)

/-- **The minimal derivation need not be the shallowest one, nor come to an end.** In both grammars
three expansions lead to two letters. In the first one the minimal derivation takes five expansions,
and in the second one it does not end. -/
theorem minimal_is_not_shallowest :
    ((∃ n ≤ 1000, detour.EndsIn [detour.start] n) ∧
      ∃ r f', (Finder.find .minDepth).runOn (usualFinder detour) = (.ok r, f') ∧
        r.depth = .int 6 ∧ ¬ detour.NoneShallower 6) ∧
    (∃ n ≤ 1000, endless.EndsIn [endless.start] n) ∧
      ∃ f', (Finder.find .minDepth).runOn (usualFinder endless) =
        (.error (.depthExceeded ⟨.int 1000, .minimal⟩), f') := by
  have hdetour : detour.EndsIn [detour.start] 3 := endsIn_three (by simp [detour]) (by simp [detour])
  have hendless : endless.EndsIn [endless.start] 3 :=
    endsIn_three (by simp [endless]) (by simp [endless])
  refine ⟨⟨⟨3, by decide, hdetour⟩, ?_⟩, ⟨3, by decide, hendless⟩, ?_⟩
  · have hminimal : detour.minimalDerivation (.int 5) = .ok ("b b b", 5) := rfl
    obtain ⟨r, hfind, -, hdepth⟩ :=
      find_minDepth hminimal (by decide) (f := usualFinder detour) rfl
    exact ⟨r, _, hfind, hdepth, fun hnone => absurd (noneShallower_iff.1 hnone 3 hdetour) (by decide)⟩
  · have hchoice : endless.choice? "S" = some ⟨"S", [.nonterminal "S"]⟩ := rfl
    rcases hminimal : endless.minimalDerivation (.int 1000) with e | ⟨text, n⟩
    · -- Every nonterminal has productions, so that only the limit can be reported.
      obtain rfl | ⟨name, -, hmem, hnone⟩ := minimalDerivation_eq_error hminimal
      · refine ⟨usualFinder endless, ?_⟩
        simp only [Finder.find, Finder.shallowest, Action.runOn_bind, Action.runOn_get,
          minimalStepLimit, usualFinder, hminimal, Action.runOn_throw]
      · simp only [endless, List.mem_cons, Symbol.nonterminal.injEq, List.not_mem_nil,
          or_false] at hmem
        rcases hmem with rfl | rfl <;> simp [productionsFor, endless, Production.headSymbol] at hnone
    · obtain ⟨yield, htree, -⟩ := minimalDerivation_eq_ok_iff.1 hminimal
      have hstart : .nonterminal "S" ∈ [endless.start] := List.mem_singleton.2 rfl
      exact absurd (List.mem_singleton.2 rfl) (htree.not_mem_body hstart hchoice)

end GrammarSuite.Grammar
