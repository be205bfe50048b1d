import GrammarSuite.Proofs.Derivation.Attempts

/-!
# Derivations that the pressure brings to an end

In a linear grammar a form has at most one nonterminal, and a rank of the nonterminals that goes
down with every production that is not left-recursive bounds the expansions that are left once the
left-recursive productions are avoided. The pressure starts when fewer than a third of the steps
remain. So if all ranks are less than that third, every derivation comes to an end, whatever is
drawn.

## Main definitions

* `Grammar.Ranks`: a rank of the nonterminals of a linear grammar
* `Grammar.Fits`: a form that ends within the steps that remain

## Main results

* `Grammar.Fits.step`: a permitted step leads to a form that fits in one step fewer
* `Engine.expandAll_returns`: expanding a form that fits does not fail
* `Engine.derive_returns_of_ranks`: no derivation fails if all ranks are less than a third of the
  bound
-/

namespace GrammarSuite

namespace Grammar

/-- A rank of the nonterminals of a linear grammar, in which every nonterminal has a production that
is not left-recursive, and each of these productions leads to a lower rank. -/
structure Ranks (g : Grammar) (h : String → Nat) : Prop where
  linear : ∀ p ∈ g.productions, p.nonterminalCount ≤ 1
  direct : ∀ name, .nonterminal name ∈ g.nonterminals →
    ∃ p ∈ g.productions, p.head = name ∧ p.isLeftRecursive = false
  pos : ∀ name, .nonterminal name ∈ g.nonterminals → 1 ≤ h name
  descends : ∀ p ∈ g.productions, p.isLeftRecursive = false →
    ∀ name, .nonterminal name ∈ p.body → h name + 1 ≤ h p.head

/-- A form that ends within the steps that remain of a bound: it has at most one nonterminal, and the
steps of the pressure are still to come or the rank of the nonterminal is not more than what
remains. -/
structure Fits (g : Grammar) (h : String → Nat) (bound remaining : Nat) (form : Form) : Prop where
  linear : form.countP Symbol.isNonterminal ≤ 1
  declared : ∀ name, .nonterminal name ∈ form → .nonterminal name ∈ g.nonterminals
  rank_le : ∀ name, .nonterminal name ∈ form → bound / 3 ≤ remaining ∨ h name ≤ remaining

variable {g : Grammar} {h : String → Nat} {bound remaining : Nat} {before after : Form}

/-- No nonterminal fits if no step remains. -/
theorem Fits.splitFirst?_eq_none {form : Form} (hform : g.Fits h bound 0 form) (hranks : g.Ranks h)
    (hthird : ∀ name, .nonterminal name ∈ g.nonterminals → h name < bound / 3) :
    form.splitFirst? = none := by
  rw [Option.eq_none_iff_forall_not_mem]
  rintro ⟨before, head, after⟩ hsplit
  obtain ⟨rfl, -⟩ := Form.splitFirst?_eq_some hsplit
  have hmem : .nonterminal head ∈ before ++ .nonterminal head :: after := by simp
  have hpos := hranks.pos head (hform.declared head hmem)
  have hless := hthird head (hform.declared head hmem)
  have hrank := hform.rank_le head hmem
  omega

/-- **One permitted step leads to a form that fits in one step fewer.** The step that reaches the
third of the bound may be left-recursive, but leads to a nonterminal whose rank is less than the
third; every later one lowers the rank. -/
theorem Fits.step {p : Production}
    (hform : g.Fits h bound (remaining + 1) (before ++ .nonterminal p.head :: after))
    (hranks : g.Ranks h)
    (hthird : ∀ name, .nonterminal name ∈ g.nonterminals → h name < bound / 3)
    (hp : p ∈ g.productions) (hpermits : g.Permits bound (remaining + 1) p) :
    g.Fits h bound remaining (before ++ p.body ++ after) := by
  have hmem : .nonterminal p.head ∈ before ++ .nonterminal p.head :: after := by simp
  -- Nothing but the body of the production has nonterminals.
  obtain ⟨hbefore, hafter⟩ : before.countP Symbol.isNonterminal = 0 ∧
      after.countP Symbol.isNonterminal = 0 := by
    have hlinear := hform.linear
    simp only [List.countP_append, List.countP_cons, Symbol.isNonterminal, if_true] at hlinear
    omega
  have hbody : ∀ name, .nonterminal name ∈ before ++ p.body ++ after →
      .nonterminal name ∈ p.body := by
    intro name hname
    simp only [List.mem_append] at hname
    rcases hname with (hname | hname) | hname
    · exact absurd rfl (List.countP_eq_zero.1 hbefore _ hname)
    · exact hname
    · exact absurd rfl (List.countP_eq_zero.1 hafter _ hname)
  have hdeclared : ∀ name, .nonterminal name ∈ before ++ p.body ++ after →
      .nonterminal name ∈ g.nonterminals := fun name hname => (g.declared p hp).2 _ (hbody name hname)
  refine ⟨?_, hdeclared, fun name hname => ?_⟩
  · rw [List.countP_append, List.countP_append, hbefore, hafter, Nat.zero_add, Nat.add_zero]
    exact hranks.linear p hp
  · have hless := hthird name (hdeclared name hname)
    by_cases hpressure : remaining + 1 < bound / 3
    · have hlr := hpermits hpressure (hranks.direct p.head (hform.declared _ hmem))
      have hdescends := hranks.descends p hp hlr name (hbody name hname)
      have hrank := hform.rank_le _ hmem
      omega
    · omega

end Grammar

namespace Engine

open GrammarSuite.Random

variable {σ : Type} [Source σ] {g : Grammar} {h : String → Nat} {b : DepthBound} {remaining : Nat}
  {form : Form}

variable [LawfulSource σ]

/-- A choice from a nonempty list returns one of its productions. -/
theorem choose_returns {productions : List Production} (hne : productions ≠ []) (symbol : Symbol)
    (s : σ) : (choose symbol productions).Returns s fun p _ => p ∈ productions := by
  obtain ⟨p, t, hpick, hp⟩ := pick_returns hne s
  refine ⟨p, t, ?_, hp⟩
  rw [choose, if_neg (by simpa using hne)]
  exact Action.runOn_within_eq_ok.2 ⟨t, hpick, rfl⟩

/-- **Expanding a form that fits in what remains does not fail**, whatever is drawn. -/
theorem expandAll_returns (hform : g.Fits h b.whole remaining form) (hranks : g.Ranks h)
    (hthird : ∀ name, .nonterminal name ∈ g.nonterminals → h name < b.whole / 3)
    (hexcess : b.excess = 0) (s : σ) :
    (expandAll g b remaining form).Returns s fun steps _ => steps.length ≤ remaining := by
  -- Induction on the steps that remain, which is how expanding goes on.
  induction remaining generalizing form s with
  | zero =>
    have hnone := hform.splitFirst?_eq_none hranks hthird
    exact ⟨[], s, expandAll_eq_ok_iff.2 (.inl ⟨hnone, rfl, rfl⟩), le_rfl⟩
  | succ left ih =>
    rcases hsplit : form.splitFirst? with _ | ⟨before, head, after⟩
    · exact ⟨[], s, expandAll_eq_ok_iff.2 (.inl ⟨hsplit, rfl, rfl⟩), Nat.zero_le _⟩
    · obtain ⟨rfl, -⟩ := Form.splitFirst?_eq_some hsplit
      have hdeclared := hform.declared head (by simp)
      have hcandidates :
          candidates g b.whole (left + 1 - b.excess) (.nonterminal head) ≠ [] := by
        obtain ⟨q, hq, hhead, -⟩ := hranks.direct head hdeclared
        exact candidates_ne_nil (List.ne_nil_of_mem (Grammar.mem_productionsFor_iff.2 ⟨hq, hhead⟩))
      obtain ⟨p, t, hchoose, hp⟩ := choose_returns hcandidates (.nonterminal head) s
      obtain ⟨hmem, rfl, hpermits⟩ := mem_candidates_iff.1 hp
      rw [hexcess, Nat.sub_zero] at hpermits
      obtain ⟨steps, u, hsteps, hlength⟩ := ih (hform.step hranks hthird hmem hpermits) t
      exact ⟨⟨before ++ p.body ++ after, some p⟩ :: steps, u, expandAll_eq_ok_iff.2 (.inr
        ⟨before, p.head, after, left, p, t, steps, hsplit, rfl, hchoose, hsteps, rfl⟩),
        Nat.succ_le_succ hlength⟩

/-- **The pressure brings every derivation of a linear grammar to an end** if the ranks are less than
a third of the bound: whatever the source draws, a derivation is returned, which takes no more
expansions than the bound allows. -/
theorem derive_returns_of_ranks {D : Nat} {e : Engine σ} (hranks : e.grammar.Ranks h)
    (hthird : ∀ name, .nonterminal name ∈ e.grammar.nonterminals → h name < D / 3)
    (hD : DepthBound.ofValue (.int D) = .ok e.bound) :
    derive.Returns e fun d _ => d.expansions ≤ D := by
  obtain ⟨-, hwhole, hexcess, -⟩ := DepthBound.eq_of_ofValue_int hD
  have hlimit : e.bound.limit = D := by rw [DepthBound.limit, hwhole, hexcess, Nat.add_zero]
  rw [← hwhole] at hthird
  have hstart : e.grammar.Fits h e.bound.whole e.bound.limit [e.grammar.start] :=
    ⟨List.countP_le_length, fun _ hname => List.mem_singleton.1 hname ▸ e.grammar.start_mem,
      fun _ _ => .inl (by omega)⟩
  obtain ⟨steps, source, hsteps, hlength⟩ :=
    expandAll_returns hstart hranks hthird hexcess e.source
  refine ⟨_, _, derive_eq_ok_iff.2 ⟨steps, source, hsteps, rfl, rfl⟩, ?_⟩
  simp only [Derivation.expansions, finish, List.length_cons]
  omega

/-- Six steps are enough for repeated letters. -/
theorem letters_end_within_six :
    letters.Ranks (fun _ => 1) ∧
      (∀ name, .nonterminal name ∈ letters.nonterminals → 1 < 6 / 3) ∧
      DepthBound.ofValue (.int (6 : Nat)) = .ok letterEngine.bound ∧
      derive.Returns letterEngine fun d _ => d.expansions ≤ (6 : Nat) := by
  have hranks : letters.Ranks (fun _ => 1) :=
    { linear := by decide
      direct := by simp [letters, Production.isLeftRecursive, Production.headSymbol]
      pos := fun _ _ => le_rfl
      descends := by simp [letters, Production.isLeftRecursive, Production.headSymbol] }
  have hthird : ∀ name, .nonterminal name ∈ letters.nonterminals → 1 < 6 / 3 := fun _ _ => by decide
  have hD := DepthBound.ofValue_int (n := 6) (by decide)
  exact ⟨hranks, hthird, hD, derive_returns_of_ranks hranks hthird hD⟩

/-- Five steps are not: a third of them is one, and the pressure starts when none remains. -/
example : (derive.runOn { letterEngine with
    bound := { given := .int 5, whole := 5, whole_pos := by decide } }).1 =
      .error (.depthExceeded ⟨.int 5, .derivation⟩) := rfl

end Engine

end GrammarSuite
