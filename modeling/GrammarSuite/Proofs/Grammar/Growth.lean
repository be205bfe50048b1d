import GrammarSuite.Grammar.Basic

/-!
# Construction and growth of grammars

What a grammar declares is checked symbol by symbol: the start symbol first, then each production in
the order of its declaration, its head before its body. The construction of a grammar reports the
first check that fails. A grammar that was constructed may then grow by productions, of which each
is added at the end, present already, or refused; the grammar stays consistent throughout.

## Main definitions

* `Grammar.checks`, `Violation.Holds`: the checks of a grammar in their order, and when one fails
* `Violation.IsFirst`: the first of a list of checks that fails
* `Grammar.Extends`: a grammar with further productions at the end
* `Grammar.AddsTo`: what the addition of a production may come to
* `Grammar.addAll`: a grammar after a sequence of additions

## Main results

* `Grammar.ofParts_checks`: a construction reports the first check that fails
* `Grammar.addAll_extends`: a sequence of additions extends a grammar
* `Grammar.constructed_grows`: construction and growth of a grammar
-/

namespace GrammarSuite

variable {nonterminals terminals nonterminals' terminals' : List Symbol}

/-! ## Checks -/

/-- A violation is real: the symbol that it is about is not declared. -/
def Violation.Holds (nonterminals terminals : List Symbol) : Violation → Prop
  | .start s => s ∉ nonterminals
  | .head p => p.headSymbol ∉ nonterminals
  | .nonterminal n _ => .nonterminal n ∉ nonterminals
  | .terminal n _ => .terminal n ∉ terminals

instance Violation.decidableHolds (nonterminals terminals : List Symbol) :
    (v : Violation) → Decidable (v.Holds nonterminals terminals)
  | .start s => inferInstanceAs (Decidable (s ∉ nonterminals))
  | .head p => inferInstanceAs (Decidable (p.headSymbol ∉ nonterminals))
  | .nonterminal n _ => inferInstanceAs (Decidable (.nonterminal n ∉ nonterminals))
  | .terminal n _ => inferInstanceAs (Decidable (.terminal n ∉ terminals))

/-- A violation is the first one in a list of checks that is real. -/
def Violation.IsFirst (nonterminals terminals : List Symbol) (checks : List Violation)
    (v : Violation) : Prop :=
  ∃ before after, checks = before ++ v :: after ∧ v.Holds nonterminals terminals ∧
    ∀ w ∈ before, ¬ w.Holds nonterminals terminals

/-- The check of a symbol in the body of a production. -/
def Production.symbolCheck (p : Production) : Symbol → Violation
  | .nonterminal n => .nonterminal n p
  | .terminal n => .terminal n p

/-- The checks of a production: its head, then its body from left to right. -/
def Production.checks (p : Production) : List Violation := .head p :: p.body.map p.symbolCheck

/-- The checks of a grammar: its start symbol, then its productions in their order. -/
def Grammar.checks (start : Symbol) (productions : List Production) : List Violation :=
  .start start :: productions.flatMap Production.checks

/-- Only the members of the sets count, not how these are listed. -/
theorem Violation.holds_congr (hnonterminals : ∀ s, s ∈ nonterminals ↔ s ∈ nonterminals')
    (hterminals : ∀ s, s ∈ terminals ↔ s ∈ terminals') (v : Violation) :
    v.Holds nonterminals terminals ↔ v.Holds nonterminals' terminals' := by
  cases v <;> simp [Holds, hnonterminals, hterminals]

theorem Violation.isFirst_congr (hnonterminals : ∀ s, s ∈ nonterminals ↔ s ∈ nonterminals')
    (hterminals : ∀ s, s ∈ terminals ↔ s ∈ terminals') (checks : List Violation) (v : Violation) :
    v.IsFirst nonterminals terminals checks ↔ v.IsFirst nonterminals' terminals' checks := by
  simp only [IsFirst, holds_congr hnonterminals hterminals]

theorem Production.declared_congr (hnonterminals : ∀ s, s ∈ nonterminals ↔ s ∈ nonterminals')
    (hterminals : ∀ s, s ∈ terminals ↔ s ∈ terminals') (p : Production) :
    p.Declared nonterminals terminals ↔ p.Declared nonterminals' terminals' := by
  have hsymbol : ∀ s : Symbol, s.Declared nonterminals terminals ↔
      s.Declared nonterminals' terminals' := by
    intro s
    cases s <;> simp [Symbol.Declared, hnonterminals, hterminals]
  simp only [Declared, hnonterminals, hsymbol]

/-- The first real violation is what a search for one finds. -/
theorem Violation.find?_eq_some_iff {checks : List Violation} {v : Violation} :
    checks.find? (·.Holds nonterminals terminals) = some v ↔
      v.IsFirst nonterminals terminals checks := by
  rw [List.find?_eq_some_iff_append, IsFirst]
  constructor
  · rintro ⟨hv, before, after, hchecks, hbefore⟩
    exact ⟨before, after, hchecks, by simpa using hv, by simpa using hbefore⟩
  · rintro ⟨before, after, hchecks, hv, hbefore⟩
    exact ⟨by simpa using hv, before, after, hchecks, by simpa using hbefore⟩

theorem Production.symbolViolation?_eq (p : Production) (s : Symbol) :
    p.symbolViolation? nonterminals terminals s =
      if (p.symbolCheck s).Holds nonterminals terminals then some (p.symbolCheck s) else none := by
  by_cases h : (p.symbolCheck s).Holds nonterminals terminals <;>
    cases s <;> simp_all [symbolViolation?, symbolCheck, Violation.Holds]

/-- A production is searched for violations check by check. -/
theorem Production.violation?_eq_find? (p : Production) :
    p.violation? nonterminals terminals =
      p.checks.find? (·.Holds nonterminals terminals) := by
  have hbody : ∀ body : Form, body.findSome? (p.symbolViolation? nonterminals terminals) =
      (body.map p.symbolCheck).find? (·.Holds nonterminals terminals) := by
    intro body
    induction body with
    | nil => rfl
    | cons s rest ih =>
      rw [List.findSome?_cons, List.map_cons, List.find?_cons, p.symbolViolation?_eq s, ih]
      by_cases h : (p.symbolCheck s).Holds nonterminals terminals <;> simp [h]
  unfold violation? checks
  rw [hbody, List.find?_cons]
  by_cases h : p.headSymbol ∈ nonterminals <;> simp [Violation.Holds, h]

theorem Production.violation?_eq_some_iff {p : Production} {v : Violation} :
    p.violation? nonterminals terminals = some v ↔
      v.IsFirst nonterminals terminals p.checks := by
  rw [p.violation?_eq_find?, Violation.find?_eq_some_iff]

namespace Grammar

/-! ## Construction -/

/-- **A construction reports the first check that fails**, and reports nothing else. -/
theorem ofParts_checks (name : Json.Value) (productions : List Production) (start : Symbol)
    (v : Violation) :
    ofParts name nonterminals terminals productions start = .error v ↔
      v.IsFirst nonterminals terminals (checks start productions) := by
  -- The construction searches these checks, in this order.
  have hfind : (checks start productions).find?
        (·.Holds nonterminals.eraseDups terminals.eraseDups) =
      if start ∈ nonterminals.eraseDups then
        productions.findSome? (Production.violation? nonterminals.eraseDups terminals.eraseDups)
      else some (.start start) := by
    rw [checks, List.find?_cons, List.find?_flatMap]
    simp only [← Production.violation?_eq_find?]
    by_cases h : start ∈ nonterminals.eraseDups <;> simp [Violation.Holds, h]
  rw [← Violation.isFirst_congr (fun _ => List.mem_eraseDups) (fun _ => List.mem_eraseDups),
    ← Violation.find?_eq_some_iff, hfind]
  unfold ofParts
  dsimp only
  by_cases hstart : start ∈ nonterminals.eraseDups
  · rw [dif_pos hstart, if_pos hstart]
    split
    · rename_i hviolation
      simp [hviolation]
    · rename_i hnone
      simp [hnone]
  · simp [hstart]

/-- A construction succeeds exactly if what is used is declared. -/
theorem exists_ofParts_iff (name : Json.Value) (productions : List Production) (start : Symbol) :
    (∃ g, ofParts name nonterminals terminals productions start = .ok g) ↔
      start ∈ nonterminals ∧ ∀ p ∈ productions, p.Declared nonterminals terminals := by
  constructor
  · rintro ⟨g, hg⟩
    obtain ⟨-, rfl, rfl, hnonterminals, hterminals⟩ := mem_of_ofParts hg
    refine ⟨(hnonterminals _).1 g.start_mem, fun p hp => ?_⟩
    exact (Production.declared_congr hnonterminals hterminals p).1 (g.declared p hp)
  · rintro ⟨hstart, hdeclared⟩
    exact exists_ofParts name hstart hdeclared

/-! ## Growth -/

/-- A grammar has further productions at the end, and is otherwise the same. -/
structure Extends (g : Grammar) (further : List Production) (g' : Grammar) : Prop where
  name : g'.name = g.name
  nonterminals : g'.nonterminals = g.nonterminals
  terminals : g'.terminals = g.terminals
  start : g'.start = g.start
  productions : g'.productions = g.productions ++ further

variable {g g' g'' : Grammar} {further others : List Production} {p : Production}

theorem Extends.refl (g : Grammar) : g.Extends [] g where
  name := rfl
  nonterminals := rfl
  terminals := rfl
  start := rfl
  productions := (List.append_nil _).symm

theorem Extends.trans (h : g.Extends further g') (h' : g'.Extends others g'') :
    g.Extends (further ++ others) g'' where
  name := h'.name.trans h.name
  nonterminals := h'.nonterminals.trans h.nonterminals
  terminals := h'.terminals.trans h.terminals
  start := h'.start.trans h.start
  productions := by rw [h'.productions, h.productions, List.append_assoc]

/-- Further productions determine the grammar that has them. -/
theorem Extends.unique (h : g.Extends further g') (h' : g.Extends further g'') : g' = g'' := by
  obtain ⟨hname, hnonterminals, hterminals, hstart, hproductions⟩ := h
  obtain ⟨hname', hnonterminals', hterminals', hstart', hproductions'⟩ := h'
  cases g'
  cases g''
  simp_all

/-- What the addition of a production may come to. -/
inductive AddsTo (g : Grammar) (p : Production) : Except Violation (Bool × Grammar) → Prop
  | present (h : p ∈ g.productions) : AddsTo g p (.ok (false, g))
  | added {g' : Grammar} (hnew : p ∉ g.productions)
      (hdeclared : p.Declared g.nonterminals g.terminals) (hextends : g.Extends [p] g') :
      AddsTo g p (.ok (true, g'))
  | refused {v : Violation} (hnew : p ∉ g.productions)
      (hfirst : v.IsFirst g.nonterminals g.terminals p.checks) : AddsTo g p (.error v)

theorem add_addsTo (g : Grammar) (p : Production) : g.AddsTo p (g.add p) := by
  unfold add
  split
  case isTrue h => exact .present h
  case isFalse h =>
    split
    case h_1 v hviolation => exact .refused h (Production.violation?_eq_some_iff.1 hviolation)
    case h_2 hnone =>
      refine .added h (Production.violation?_eq_none_iff.1 hnone) ?_
      constructor <;> rfl


/-- The grammar after the addition of a production. It stays as it is if that is refused. -/
def grow (g : Grammar) (p : Production) : Grammar :=
  match g.add p with
  | .ok (_, g') => g'
  | .error _ => g

/-- The grammar after a sequence of additions. -/
def addAll (g : Grammar) (calls : List Production) : Grammar := calls.foldl grow g

/-- One addition brings one new production at most. -/
theorem grow_extends (g : Grammar) (p : Production) :
    ∃ further, further.Sublist [p] ∧ g.Extends further (g.grow p) ∧
      ∀ q ∈ further, q ∉ g.productions := by
  have hadds := g.add_addsTo p
  unfold grow
  generalize g.add p = r at hadds
  cases hadds with
  | present h => exact ⟨[], List.nil_sublist _, .refl g, by simp⟩
  | added hnew hdeclared hextends => exact ⟨[p], .refl _, hextends, by simpa using hnew⟩
  | refused hnew hfirst => exact ⟨[], List.nil_sublist _, .refl g, by simp⟩

/-- **A sequence of additions extends a grammar** by some of its productions, in their order. A list
without repetitions stays so. -/
theorem addAll_extends (calls : List Production) (g : Grammar) :
    ∃ further, further.Sublist calls ∧ g.Extends further (g.addAll calls) ∧
      (g.productions.Nodup → (g.addAll calls).productions.Nodup) := by
  induction calls generalizing g with
  | nil => exact ⟨[], .slnil, .refl g, id⟩
  | cons p rest ih =>
    obtain ⟨first, hfirst, hgrow, hnew⟩ := g.grow_extends p
    obtain ⟨others, hothers, hrest, hnodup⟩ := ih (g.grow p)
    refine ⟨first ++ others, hfirst.append hothers, hgrow.trans hrest, fun h => hnodup ?_⟩
    -- What the first call adds was not there before.
    rw [hgrow.productions, List.nodup_append]
    refine ⟨h, hfirst.nodup (List.pairwise_singleton _ p), fun q hq q' hq' heq => ?_⟩
    exact hnew q' hq' (heq ▸ hq)

/-- What each answer to the addition of a production says, for a grammar with these symbols. -/
structure Answers (nonterminals terminals : List Symbol) (g : Grammar) (p : Production) :
    Prop where
  added : ∀ g', g.add p = .ok (true, g') ↔
    p ∉ g.productions ∧ p.Declared nonterminals terminals ∧ g.Extends [p] g'
  present : ∀ g', g.add p = .ok (false, g') ↔ p ∈ g.productions ∧ g' = g
  refused : ∀ v, g.add p = .error v ↔
    p ∉ g.productions ∧ v.IsFirst nonterminals terminals p.checks

/-- The three answers exclude each other, so that each says all of what leads to it. -/
theorem answers (g : Grammar) (p : Production) : g.Answers g.nonterminals g.terminals p := by
  have hadds := g.add_addsTo p
  -- A declared production has no violation at all.
  have hdeclared_not : ∀ v : Violation, p.Declared g.nonterminals g.terminals →
      ¬ v.IsFirst g.nonterminals g.terminals p.checks := by
    intro v hdeclared hfirst
    have hnone := Production.violation?_eq_none_iff.2 hdeclared
    rw [← Production.violation?_eq_some_iff, hnone] at hfirst
    cases hfirst
  generalize hr : g.add p = r at hadds
  constructor
  case added =>
    intro g'
    rw [hr]
    cases hadds with
    | present h => simp [h]
    | added hnew hdeclared hextends =>
      constructor
      · intro h
        cases h
        exact ⟨hnew, hdeclared, hextends⟩
      · rintro ⟨-, -, h⟩
        rw [hextends.unique h]
    | refused hnew hfirst =>
      simp only [reduceCtorEq, false_iff, not_and]
      exact fun _ hdeclared => absurd hfirst (hdeclared_not _ hdeclared)
  case present =>
    intro g'
    rw [hr]
    cases hadds with
    | present h => simp [h, eq_comm]
    | added hnew => simp [hnew]
    | refused hnew => simp [hnew]
  case refused =>
    intro v
    rw [hr]
    cases hadds with
    | present h => simp [h]
    | added hnew hdeclared => simp [hdeclared_not v hdeclared]
    | refused hnew hfirst =>
      rw [← Production.violation?_eq_some_iff] at hfirst ⊢
      simp [hnew, hfirst]

/-- **A constructed grammar is consistent and stays so.** Its construction succeeds exactly if what
is used is declared, and otherwise reports the first violation. Over any additions it keeps its
productions in their order and its symbols, takes each new and declared production once at its end,
and refuses a violation. -/
theorem constructed_grows (name : Json.Value) (nonterminals terminals : List Symbol)
    (productions : List Production) (start : Symbol) :
    ((∃ g, ofParts name nonterminals terminals productions start = .ok g) ↔
      start ∈ nonterminals ∧ ∀ p ∈ productions, p.Declared nonterminals terminals) ∧
    (∀ v, ofParts name nonterminals terminals productions start = .error v ↔
      v.IsFirst nonterminals terminals (checks start productions)) ∧
    ∀ g, ofParts name nonterminals terminals productions start = .ok g →
      g.productions = productions ∧ ∀ calls,
        ((g.addAll calls).start ∈ nonterminals ∧
          ∀ p ∈ (g.addAll calls).productions, p.Declared nonterminals terminals) ∧
        (∃ further, further.Sublist calls ∧ g.Extends further (g.addAll calls)) ∧
        (productions.Nodup → (g.addAll calls).productions.Nodup) ∧
        ∀ p, (g.addAll calls).Answers nonterminals terminals p := by
  refine ⟨exists_ofParts_iff name productions start, ofParts_checks name productions start,
    fun g hg => ?_⟩
  obtain ⟨-, rfl, rfl, hnonterminals, hterminals⟩ := mem_of_ofParts hg
  refine ⟨rfl, fun calls => ?_⟩
  obtain ⟨further, hfurther, hextends, hnodup⟩ := addAll_extends calls g
  -- The symbols of the grown grammar are those of its parts.
  have hn : ∀ s, s ∈ (g.addAll calls).nonterminals ↔ s ∈ nonterminals := by
    rwa [hextends.nonterminals]
  have ht : ∀ s, s ∈ (g.addAll calls).terminals ↔ s ∈ terminals := by
    rwa [hextends.terminals]
  refine ⟨⟨(hn _).1 (g.addAll calls).start_mem, fun p hp => ?_⟩, ⟨further, hfurther, hextends⟩,
    hnodup, fun p => ?_⟩
  · exact (Production.declared_congr hn ht p).1 ((g.addAll calls).declared p hp)
  · have hanswers := (g.addAll calls).answers p
    constructor
    case added =>
      intro g'
      rw [hanswers.added, Production.declared_congr hn ht]
    case present => exact hanswers.present
    case refused =>
      intro v
      rw [hanswers.refused, Violation.isFirst_congr hn ht]

/-- Of three additions the first is taken, the second is present and the third is refused. -/
theorem growth_of_words :
    ∃ g, ofParts (.text "words") [.nonterminal "S"] [.terminal "a"] [⟨"S", [.terminal "a"]⟩]
        (.nonterminal "S") = .ok g ∧
      let grown := g.addAll [⟨"S", []⟩, ⟨"S", []⟩, ⟨"T", []⟩]
      grown.productions = [⟨"S", [.terminal "a"]⟩, ⟨"S", []⟩] ∧ grown.productions.Nodup ∧
        grown.add ⟨"S", []⟩ = .ok (false, grown) ∧
        grown.add ⟨"T", []⟩ = .error (.head ⟨"T", []⟩) := by
  obtain ⟨hconstructed, -, hgrows⟩ := constructed_grows (.text "words") [.nonterminal "S"]
    [.terminal "a"] [⟨"S", [.terminal "a"]⟩] (.nonterminal "S")
  obtain ⟨g, hg⟩ := hconstructed.2 ⟨by decide, by simp [Production.Declared, Symbol.Declared,
    Production.headSymbol]⟩
  obtain ⟨-, hcalls⟩ := hgrows g hg
  obtain ⟨-, -, hnodup, hanswers⟩ := hcalls [⟨"S", []⟩, ⟨"S", []⟩, ⟨"T", []⟩]
  have hproductions : (g.addAll [⟨"S", []⟩, ⟨"S", []⟩, ⟨"T", []⟩]).productions =
      [⟨"S", [.terminal "a"]⟩, ⟨"S", []⟩] := by
    cases hg
    rfl
  refine ⟨g, hg, hproductions, hnodup (by decide), ?_, ?_⟩
  · exact ((hanswers ⟨"S", []⟩).present _).2 ⟨by simp [hproductions], rfl⟩
  · refine ((hanswers ⟨"T", []⟩).refused _).2 ⟨by simp [hproductions], [], [], rfl, ?_, by simp⟩
    simp [Violation.Holds, Production.headSymbol]

end Grammar

end GrammarSuite
