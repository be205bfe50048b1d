import GrammarSuite.Derivation.Minimal
import GrammarSuite.Proofs.Derivation.Attempts
import Mathlib.Data.Prod.Lex

/-!
# The minimal derivation as a recursion

The minimal derivation rewrites one form, from the left, for a limited number of steps. The same
text comes from a recursion over the symbols: a terminal gives its name, and a nonterminal gives
what the body of its simplest production gives, at the cost of one step more than the nonterminals
of the body together. The recursion has no limit. It comes to nothing where a nonterminal has no
production, or where one occurs below itself.

What the recursion gives has a tree, which is described by an inductive relation. Only one number of
steps belongs to a nonterminal, and what stands below it in a tree takes fewer steps. So a
nonterminal that has a tree does not occur below itself, and a tree is as good as the recursion.

## Main definitions

* `Production.size`, `Grammar.choice?`: the order of simplicity, and the simplest production
* `Grammar.evaluate`: the recursion
* `Grammar.Unfolds`: the trees of the recursion

## Main results

* `Grammar.simplest?_eq`: the production that the minimal derivation takes is the simplest one
* `Grammar.minimize_eq_ok_iff`: a form is rewritten to the leaves of its tree
* `Grammar.evaluate_eq_some_iff`: the recursion gives what a tree does
* `Grammar.minimalDerivation_evaluates`: the minimal derivation is the recursion, up to its limit
-/

namespace GrammarSuite

open Json (Value)

/-- How simple a production is: fewer nonterminals come first, and then shorter bodies. -/
def Production.size (p : Production) : Nat ×ₗ Nat := toLex (p.nonterminalCount, p.body.length)

theorem Production.simplerThan_iff {p q : Production} :
    p.simplerThan q = true ↔ p.size < q.size := by
  simp [simplerThan, size, Prod.Lex.toLex_lt_toLex]

namespace Grammar

variable {g : Grammar} {form rest : Form} {yield yield' : List String} {n n' : Nat}

/-! ## The simplest production -/

/-- The first production of a nonterminal that no other one is simpler than. -/
def choice? (g : Grammar) (name : String) : Option Production :=
  let ps := g.productionsFor (.nonterminal name)
  ps.find? fun p => ∀ q ∈ ps, p.size ≤ q.size

/-- Going through a list for the simplest production finds the first such one: none is simpler, and
those before it are less simple. -/
theorem exists_simplestOf_cons (p : Production) (ps : List Production) :
    ∃ r before after, simplestOf (p :: ps) = some r ∧ p :: ps = before ++ r :: after ∧
      (∀ q ∈ before, r.size < q.size) ∧ ∀ q ∈ p :: ps, r.size ≤ q.size := by
  simp only [simplestOf, Option.some.injEq]
  induction ps generalizing p with
  | nil => exact ⟨p, [], [], rfl, rfl, by simp, by simp⟩
  | cons q ps ih =>
    rw [List.foldl_cons]
    by_cases hq : q.simplerThan p = true
    · rw [if_pos hq]
      obtain ⟨r, before, after, hr, hsplit, hbefore, hall⟩ := ih q
      have hlt : r.size < p.size :=
        (hall q List.mem_cons_self).trans_lt (Production.simplerThan_iff.1 hq)
      refine ⟨r, p :: before, after, hr, by rw [hsplit, List.cons_append], ?_, ?_⟩
      · exact List.forall_mem_cons.2 ⟨hlt, hbefore⟩
      · exact List.forall_mem_cons.2 ⟨hlt.le, hall⟩
    · rw [if_neg hq]
      have hle : p.size ≤ q.size := not_lt.1 fun hlt => hq (Production.simplerThan_iff.2 hlt)
      obtain ⟨r, before, after, hr, hsplit, hbefore, hall⟩ := ih p
      obtain ⟨hp, hps⟩ := List.forall_mem_cons.1 hall
      have hall' : ∀ x ∈ p :: q :: ps, r.size ≤ x.size :=
        List.forall_mem_cons.2 ⟨hp, List.forall_mem_cons.2 ⟨hp.trans hle, hps⟩⟩
      cases before with
      | nil =>
        obtain ⟨rfl, rfl⟩ : p = r ∧ ps = after := by simpa using hsplit
        exact ⟨p, [], q :: ps, hr, rfl, by simp, hall'⟩
      | cons b before =>
        obtain ⟨rfl, rfl⟩ : p = b ∧ ps = before ++ r :: after := by simpa using hsplit
        obtain ⟨hlt, hbefore⟩ := List.forall_mem_cons.1 hbefore
        refine ⟨r, p :: q :: before, after, hr, rfl, ?_, hall'⟩
        exact List.forall_mem_cons.2 ⟨hlt, List.forall_mem_cons.2 ⟨hlt.trans_le hle, hbefore⟩⟩

/-- **The production that the minimal derivation takes is the simplest one**, and the first of
these. -/
theorem simplest?_eq (g : Grammar) (name : String) :
    g.simplest? (.nonterminal name) = g.choice? name := by
  unfold simplest? choice?
  dsimp only
  cases g.productionsFor (.nonterminal name) with
  | nil => rfl
  | cons p ps =>
    obtain ⟨r, before, after, hr, hsplit, hbefore, hall⟩ := exists_simplestOf_cons p ps
    rw [hr, eq_comm, List.find?_eq_some_iff_append]
    refine ⟨decide_eq_true hall, before, after, hsplit, fun q hq => ?_⟩
    rw [Bool.not_eq_true', decide_eq_false_iff_not]
    intro hle
    exact (hbefore q hq).not_ge (hle r (by simp [hsplit]))

theorem choice?_eq_none_iff {name : String} :
    g.choice? name = none ↔ g.productionsFor (.nonterminal name) = [] := by
  rw [← simplest?_eq, simplest?]
  cases g.productionsFor (.nonterminal name) <;> simp [simplestOf]

theorem mem_of_choice? {name : String} {p : Production} (h : g.choice? name = some p) :
    p ∈ g.productions ∧ p.head = name :=
  mem_productionsFor_iff.1 (List.mem_of_find?_eq_some h)

/-! ## The recursion -/

/-- The names of the terminals that the nonterminals of a form expand to by their simplest
productions, and the number of these expansions. There are none if a nonterminal has no production,
or if it is one of those that are being expanded above. -/
def evaluate (g : Grammar) (above : List String) : Form → Option (List String × Nat)
  | [] => some ([], 0)
  | .terminal name :: rest => do
    let (yield, cost) ← g.evaluate above rest
    pure (name :: yield, cost)
  | .nonterminal name :: rest =>
    if name ∈ above then none
    else
      match _h : g.choice? name with
      | none => none
      | some p => do
        let (yield, cost) ← g.evaluate (name :: above) p.body
        let (yield', cost') ← g.evaluate above rest
        pure (yield ++ yield', (1 + cost) + cost')
termination_by form => ((g.productions.filter (·.head ∉ above)).length, form.length)
decreasing_by
  · exact Prod.Lex.right _ (Nat.lt_succ_self _)
  · -- The productions of the nonterminal are no longer among those that may be taken.
    rename_i hname
    obtain ⟨hp, hhead⟩ := mem_of_choice? _h
    refine Prod.Lex.left _ _ ?_
    have hsub : ∀ q : Production, decide (q.head ∉ name :: above) =
        (decide (q.head ≠ name) && decide (q.head ∉ above)) := by
      intro q
      simp [not_or]
    simp only [hsub, ← List.filter_filter]
    refine List.length_filter_lt_length_iff_exists.2 ⟨p, ?_, by simp [hhead]⟩
    exact List.mem_filter.2 ⟨hp, decide_eq_true (hhead ▸ hname)⟩
  · exact Prod.Lex.right _ (Nat.lt_succ_self _)

/-! ## Trees -/

/-- **The tree of a form**: every nonterminal is expanded by its simplest production. The leaves are
the names of terminals, and each nonterminal in the tree is one expansion. -/
inductive Unfolds (g : Grammar) : Form → List String → Nat → Prop
  | nil : Unfolds g [] [] 0
  | terminal {name : String} {rest : Form} {yield : List String} {n : Nat}
      (h : Unfolds g rest yield n) : Unfolds g (.terminal name :: rest) (name :: yield) n
  | nonterminal {name : String} {p : Production} {rest : Form} {yield yield' : List String}
      {n n' : Nat} (hp : g.choice? name = some p) (hbody : Unfolds g p.body yield n)
      (hrest : Unfolds g rest yield' n') :
      Unfolds g (.nonterminal name :: rest) (yield ++ yield') (1 + n + n')

theorem Unfolds.unique (h : g.Unfolds form yield n) (h' : g.Unfolds form yield' n') :
    yield = yield' ∧ n = n' := by
  induction h generalizing yield' n' with
  | nil =>
    cases h' with
    | nil => exact ⟨rfl, rfl⟩
  | terminal h ih =>
    cases h' with
    | terminal h' =>
      obtain ⟨rfl, rfl⟩ := ih h'
      exact ⟨rfl, rfl⟩
  | nonterminal hp hbody hrest ihbody ihrest =>
    cases h' with
    | nonterminal hp' hbody' hrest' =>
      rw [hp] at hp'
      obtain rfl := Option.some.inj hp'
      obtain ⟨rfl, rfl⟩ := ihbody hbody'
      obtain ⟨rfl, rfl⟩ := ihrest hrest'
      exact ⟨rfl, rfl⟩

/-- The tree of a form consists of the trees of its parts. -/
theorem unfolds_append_iff {before : Form} :
    g.Unfolds (before ++ rest) yield n ↔ ∃ front m back k, g.Unfolds before front m ∧
      g.Unfolds rest back k ∧ yield = front ++ back ∧ n = m + k := by
  induction before generalizing yield n with
  | nil =>
    constructor
    · exact fun h => ⟨[], 0, yield, n, .nil, h, rfl, (Nat.zero_add n).symm⟩
    · rintro ⟨front, m, back, k, hnil, h, rfl, rfl⟩
      cases hnil with
      | nil => rwa [List.nil_append, Nat.zero_add]
  | cons s before ih =>
    constructor
    · intro h
      cases h with
      | terminal htail =>
        obtain ⟨front, m, back, k, hfront, hback, rfl, rfl⟩ := ih.1 htail
        exact ⟨_, m, back, k, .terminal hfront, hback, rfl, rfl⟩
      | nonterminal hp hbody htail =>
        obtain ⟨front, m, back, k, hfront, hback, rfl, rfl⟩ := ih.1 htail
        exact ⟨_, _, back, k, .nonterminal hp hbody hfront, hback, (List.append_assoc ..).symm,
          (Nat.add_assoc ..).symm⟩
    · rintro ⟨front, m, back, k, hfront, hback, rfl, rfl⟩
      cases hfront with
      | terminal hfront => exact .terminal (ih.2 ⟨_, _, back, k, hfront, hback, rfl, rfl⟩)
      | nonterminal hp hbody hfront =>
        rw [List.append_assoc, Nat.add_assoc]
        exact .nonterminal hp hbody (ih.2 ⟨_, _, back, k, hfront, hback, rfl, rfl⟩)

/-- A terminal form is its own tree. -/
theorem unfolds_of_terminal (h : form.hasNonterminal = false) :
    g.Unfolds form form.terminals 0 := by
  induction form with
  | nil => exact .nil
  | cons s rest ih =>
    cases s with
    | nonterminal name => simp at h
    | terminal name => exact .terminal (ih h)

/-- Wherever a nonterminal of a form is expanded by its simplest production, one expansion fewer is
left. -/
theorem unfolds_expand_iff {before after : Form} {name : String} :
    g.Unfolds (before ++ .nonterminal name :: after) yield n ↔
      ∃ p m, g.choice? name = some p ∧ g.Unfolds (before ++ p.body ++ after) yield m ∧
        n = m + 1 := by
  constructor
  · intro h
    obtain ⟨front, m, _, _, hfront, hback, rfl, rfl⟩ := unfolds_append_iff.1 h
    cases hback with
    | @nonterminal _ p _ middle back i j hp hbody hafter =>
      refine ⟨p, m + i + j, hp, ?_, by omega⟩
      rw [← List.append_assoc]
      exact unfolds_append_iff.2 ⟨front ++ middle, m + i, back, j,
        unfolds_append_iff.2 ⟨front, m, middle, i, hfront, hbody, rfl, rfl⟩, hafter, rfl, rfl⟩
  · rintro ⟨p, m, hp, h, rfl⟩
    obtain ⟨_, _, back, j, hopening, hafter, rfl, rfl⟩ := unfolds_append_iff.1 h
    obtain ⟨front, m, middle, i, hfront, hbody, rfl, rfl⟩ := unfolds_append_iff.1 hopening
    exact unfolds_append_iff.2 ⟨front, m, middle ++ back, 1 + i + j, hfront,
      .nonterminal hp hbody hafter, List.append_assoc .., by omega⟩

/-- A nonterminal of a form takes no more expansions than the form. -/
theorem Unfolds.le_of_mem {name : String} (h : g.Unfolds form yield n)
    (hmem : .nonterminal name ∈ form) (h' : g.Unfolds [.nonterminal name] yield' n') : n' ≤ n := by
  obtain ⟨before, after, rfl⟩ := List.append_of_mem hmem
  rw [← List.singleton_append] at h
  obtain ⟨_, m, _, k, -, hback, rfl, rfl⟩ := unfolds_append_iff.1 h
  obtain ⟨_, i, _, j, hname, -, -, rfl⟩ := unfolds_append_iff.1 hback
  obtain ⟨-, rfl⟩ := hname.unique h'
  omega

/-! ## The recursion and the trees -/

theorem unfolds_of_evaluate {above : List String} (h : g.evaluate above form = some (yield, n)) :
    g.Unfolds form yield n := by
  fun_induction g.evaluate above form generalizing yield n with
  | case1 =>
    obtain ⟨rfl, rfl⟩ : [] = yield ∧ 0 = n := by simpa using h
    exact .nil
  | case2 above name rest ih =>
    obtain ⟨⟨yield', m⟩, hrest, heq⟩ := Option.bind_eq_some_iff.1 h
    obtain ⟨rfl, rfl⟩ : name :: yield' = yield ∧ m = n := by simpa using heq
    exact .terminal (ih hrest)
  | case3 => cases h
  | case4 => cases h
  | case5 above name rest hname p hp ihbody ihrest =>
    obtain ⟨⟨yield₁, m₁⟩, hbody, h⟩ := Option.bind_eq_some_iff.1 h
    obtain ⟨⟨yield₂, m₂⟩, hrest, heq⟩ := Option.bind_eq_some_iff.1 h
    obtain ⟨rfl, rfl⟩ : yield₁ ++ yield₂ = yield ∧ 1 + m₁ + m₂ = n := by simpa using heq
    exact .nonterminal hp (ihbody hbody) (ihrest hrest)

/-- The recursion follows a tree, if what is being expanded above takes more expansions than the
tree has: then none of it occurs in the tree. -/
theorem Unfolds.evaluate_eq {above : List String} (h : g.Unfolds form yield n)
    (habove : ∀ name ∈ above, ∀ yield' n', g.Unfolds [.nonterminal name] yield' n' → n < n') :
    g.evaluate above form = some (yield, n) := by
  induction h generalizing above with
  | nil => rw [evaluate]
  | terminal h ih =>
    rw [evaluate, ih habove]
    rfl
  | @nonterminal name p rest yield yield' n n' hp hbody hrest ihbody ihrest =>
    have hself : g.Unfolds [.nonterminal name] (yield ++ []) (1 + n + 0) :=
      .nonterminal hp hbody .nil
    have hname : name ∉ above := fun hmem => by
      have := habove name hmem _ _ hself
      omega
    have hbelow : ∀ name' ∈ name :: above, ∀ yield' n',
        g.Unfolds [.nonterminal name'] yield' n' → n < n' := by
      intro name' hmem yield₁ m h₁
      rcases List.mem_cons.1 hmem with rfl | hmem
      · obtain ⟨-, rfl⟩ := hself.unique h₁
        omega
      · have := habove name' hmem yield₁ m h₁
        omega
    have hbeside : ∀ name' ∈ above, ∀ yield' m,
        g.Unfolds [.nonterminal name'] yield' m → n' < m := by
      intro name' hmem yield₁ m h₁
      have := habove name' hmem yield₁ m h₁
      omega
    rw [evaluate, if_neg hname]
    split
    · rename_i hnone
      rw [hp] at hnone
      cases hnone
    · rename_i p' hp'
      rw [hp] at hp'
      obtain rfl := Option.some.inj hp'
      rw [ihbody hbelow, ihrest hbeside]
      rfl

/-- **The recursion gives what a tree does.** -/
theorem evaluate_eq_some_iff :
    g.evaluate [] form = some (yield, n) ↔ g.Unfolds form yield n :=
  ⟨unfolds_of_evaluate, fun h => h.evaluate_eq (by simp)⟩

/-! ## The minimal derivation -/

theorem terminals_map_terminal (yield : List String) :
    Form.terminals (yield.map .terminal) = yield := by
  induction yield with
  | nil => rfl
  | cons name yield ih => rw [List.map_cons, Form.terminals, ih]

theorem terminalText_map_terminal (yield : List String) :
    Form.terminalText (yield.map .terminal) = if yield = [] then epsilon else Text.unwords yield := by
  rw [Form.terminalText, terminals_map_terminal]
  simp

/-- A form without nonterminals is left as it is, like its tree. -/
theorem minimized_of_terminal {remaining steps steps' : Nat} {form' : Form}
    (h : form.splitFirst? = none) :
    (Except.ok (form, steps) : Except Failure (Form × Nat)) = .ok (form', steps') ↔
      ∃ yield n, g.Unfolds form yield n ∧ n ≤ remaining ∧ form' = yield.map .terminal ∧
        steps' = steps + n := by
  have hform := Form.splitFirst?_eq_none_iff.1 h
  have htree : g.Unfolds form form.terminals 0 := unfolds_of_terminal hform
  simp only [Except.ok.injEq, Prod.mk.injEq]
  constructor
  · rintro ⟨rfl, rfl⟩
    exact ⟨_, 0, htree, Nat.zero_le _, Form.eq_map_terminal hform, rfl⟩
  · rintro ⟨yield, n, htree', -, rfl, rfl⟩
    obtain ⟨rfl, rfl⟩ := htree.unique htree'
    exact ⟨Form.eq_map_terminal hform, rfl⟩

/-- **A form is rewritten to the leaves of its tree**, if there are steps enough for the tree. -/
theorem minimize_eq_ok_iff {limit : Value} {remaining steps steps' : Nat} {form' : Form} :
    g.minimize limit remaining form steps = .ok (form', steps') ↔
      ∃ yield n, g.Unfolds form yield n ∧ n ≤ remaining ∧ form' = yield.map .terminal ∧
        steps' = steps + n := by
  -- Induction on the steps that remain. A form without nonterminals is its own tree, and in any
  -- other one a step expands one nonterminal of the tree.
  induction remaining generalizing form steps with
  | zero =>
    rw [minimize]
    split
    · exact minimized_of_terminal ‹_›
    · rename_i before head after hsplit
      obtain ⟨rfl, -⟩ := Form.splitFirst?_eq_some hsplit
      refine iff_of_false (by simp) ?_
      rintro ⟨yield, n, htree, hn, -, -⟩
      obtain ⟨p, m, -, -, rfl⟩ := unfolds_expand_iff.1 htree
      omega
  | succ left ih =>
    rw [minimize]
    split
    · exact minimized_of_terminal ‹_›
    · rename_i before head after hsplit
      obtain ⟨rfl, -⟩ := Form.splitFirst?_eq_some hsplit
      simp only [simplest, simplest?_eq, unfolds_expand_iff]
      cases g.choice? head with
      | none => simp
      | some p =>
        simp only [ih, Option.some.injEq]
        constructor
        · rintro ⟨yield, m, htree, hm, rfl, rfl⟩
          exact ⟨yield, m + 1, ⟨p, m, rfl, htree, rfl⟩, by omega, rfl, by omega⟩
        · rintro ⟨yield, n, ⟨_, m, rfl, htree, rfl⟩, hn, rfl, rfl⟩
          exact ⟨yield, m, htree, by omega, rfl, by omega⟩

/-- The minimal derivation fails only at its limit, or where the grammar lacks productions. -/
theorem minimize_eq_error {limit : Value} {remaining steps : Nat} {f : Failure}
    (hform : ∀ n, .nonterminal n ∈ form → .nonterminal n ∈ g.nonterminals)
    (h : g.minimize limit remaining form steps = .error f) :
    f = .depthExceeded ⟨limit, .minimal⟩ ∨ g.IsLack f := by
  induction remaining generalizing form steps with
  | zero =>
    rw [minimize] at h
    split at h
    · cases h
    · exact .inl (Except.error.inj h).symm
  | succ left ih =>
    rw [minimize] at h
    split at h
    · cases h
    · rename_i before head after hsplit
      obtain ⟨rfl, -⟩ := Form.splitFirst?_eq_some hsplit
      rw [simplest, simplest?_eq] at h
      rcases hchoice : g.choice? head with _ | p
      · rw [hchoice] at h
        exact .inr ⟨head, (Except.error.inj h).symm, hform head (by simp),
          choice?_eq_none_iff.1 hchoice⟩
      · rw [hchoice] at h
        obtain ⟨hmem, -⟩ := mem_of_choice? hchoice
        exact ih (mem_nonterminals_of_replace hmem hform) h

theorem minimalDerivation_eq_error {limit : Int} {f : Failure}
    (h : g.minimalDerivation (.int limit) = .error f) :
    f = .depthExceeded ⟨.int limit, .minimal⟩ ∨ g.IsLack f := by
  rw [minimalDerivation_int] at h
  rcases hrun : g.minimize (.int limit) limit.toNat [g.start] 0 with f' | r
  · rw [hrun] at h
    obtain rfl : f' = f := Except.error.inj h
    exact minimize_eq_error (Engine.start_declared g) hrun
  · rw [hrun] at h
    cases h

/-- The minimal derivation succeeds exactly if the start symbol has a tree within the limit. -/
theorem minimalDerivation_eq_ok_iff {limit : Int} {text : String} :
    g.minimalDerivation (.int limit) = .ok (text, n) ↔
      ∃ yield, g.Unfolds [g.start] yield n ∧ n ≤ limit.toNat ∧
        text = if yield = [] then epsilon else Text.unwords yield := by
  rw [minimalDerivation_int]
  constructor
  · intro h
    rcases hrun : g.minimize (.int limit) limit.toNat [g.start] 0 with f | ⟨form, steps⟩
    · rw [hrun] at h
      cases h
    · rw [hrun] at h
      obtain ⟨rfl, rfl⟩ : form.terminalText = text ∧ steps = n := by simpa [Except.map] using h
      obtain ⟨yield, m, htree, hm, rfl, rfl⟩ := minimize_eq_ok_iff.1 hrun
      rw [Nat.zero_add]
      exact ⟨yield, htree, hm, terminalText_map_terminal yield⟩
  · rintro ⟨yield, htree, hn, rfl⟩
    rw [minimize_eq_ok_iff.2 ⟨yield, n, htree, hn, rfl, (Nat.zero_add n).symm⟩,
      ← terminalText_map_terminal]
    rfl

/-- **The minimal derivation is the recursion, up to its limit.** It gives the leaves and the cost
of the start symbol if the recursion comes to something and the cost is within the limit, and fails
in all other cases: at the limit, or at a nonterminal that has no production. A start symbol that is
a terminal needs no step, whatever the limit is. -/
theorem minimalDerivation_evaluates (g : Grammar) (limit : Int) :
    (∀ text n, g.minimalDerivation (.int limit) = .ok (text, n) ↔
      ∃ yield, g.evaluate [] [g.start] = some (yield, n) ∧
        (g.start.isNonterminal = true → (n : Int) ≤ limit) ∧
        text = if yield = [] then epsilon else Text.unwords yield) ∧
    ∀ f, g.minimalDerivation (.int limit) = .error f →
      f = .depthExceeded ⟨.int limit, .minimal⟩ ∨
      ∃ name, f = .noProductions (.nonterminal name) ∧
        g.productionsFor (.nonterminal name) = [] := by
  refine ⟨fun text n => ?_, fun f h => ?_⟩
  · simp only [minimalDerivation_eq_ok_iff, evaluate_eq_some_iff]
    refine exists_congr fun yield => and_congr_right fun htree => and_congr_left fun _ => ?_
    cases hstart : g.start with
    | terminal name =>
      rw [hstart] at htree
      obtain ⟨-, rfl⟩ := htree.unique (.terminal .nil)
      simp [Symbol.isNonterminal]
    | nonterminal name =>
      rw [hstart] at htree
      have hexpand : g.Unfolds ([] ++ .nonterminal name :: []) yield n := htree
      obtain ⟨p, m, -, -, rfl⟩ := unfolds_expand_iff.1 hexpand
      simp only [Symbol.isNonterminal, true_imp_iff]
      omega
  · rcases minimalDerivation_eq_error h with hlimit | ⟨name, hlack, -, hnone⟩
    · exact .inl hlimit
    · exact .inr ⟨name, hlack, hnone⟩

end Grammar

end GrammarSuite
