import GrammarSuite.Grammar.Basic
import Mathlib.Data.List.Chain
import Mathlib.Logic.Relation

/-!
# Rewriting with the productions of a grammar

A production rewrites a form by replacing one occurrence of its head by its body, and expands it
if that occurrence is the first nonterminal of the form. What a grammar generates is the text of
the terminal forms that its start symbol is rewritten to, in any order of the occurrences.

A property of forms that holds of the start symbol and that every production keeps holds of all
that is generated. Three kinds of properties are met often: which symbols occur, the sum of a weight
of the symbols, and which symbols stand side by side.

## Main definitions

* `Production.Expands`: the replacement of the first nonterminal
* `Production.Rewrites`, `Grammar.Derives`: the replacement of any occurrence, and a sequence of them
* `Grammar.Generates`: the texts of a grammar
* `weight`: the sum of a weight over a list

## Main results

* `Production.expands_iff`: to expand is to replace what a form is split at
* `Grammar.Derives.forall_mem`, `Grammar.Derives.weight_eq`, `Grammar.Derives.isChain`: the three
  kinds of properties that rewriting keeps
-/

namespace GrammarSuite

theorem Symbol.exists_eq_nonterminal {s : Symbol} (h : s.isNonterminal = true) :
    ∃ name, s = .nonterminal name := by
  cases s with
  | terminal n => simp [isNonterminal] at h
  | nonterminal n => exact ⟨n, rfl⟩

namespace Form

@[simp] theorem hasNonterminal_terminal_cons (n : String) (rest : Form) :
    hasNonterminal (.terminal n :: rest) = hasNonterminal rest := rfl

@[simp] theorem hasNonterminal_nonterminal_cons (n : String) (rest : Form) :
    hasNonterminal (.nonterminal n :: rest) = true := rfl

/-- A form is cut at a nonterminal that only terminals stand before. -/
theorem splitFirst?_append {before : Form} (h : before.hasNonterminal = false) (head : String)
    (after : Form) :
    splitFirst? (before ++ .nonterminal head :: after) = some (before, head, after) := by
  induction before with
  | nil => rfl
  | cons s before ih =>
    cases s with
    | nonterminal n => simp at h
    | terminal n =>
      rw [hasNonterminal_terminal_cons] at h
      simp [splitFirst?, ih h]

theorem splitFirst?_eq_some_iff {form before after : Form} {head : String} :
    form.splitFirst? = some (before, head, after) ↔
      form = before ++ .nonterminal head :: after ∧ before.hasNonterminal = false := by
  constructor
  · exact splitFirst?_eq_some
  · rintro ⟨rfl, h⟩
    exact splitFirst?_append h head after

/-- A form without nonterminals is that of its terminals. -/
theorem eq_map_terminal {form : Form} (h : form.hasNonterminal = false) :
    form = form.terminals.map .terminal := by
  induction form with
  | nil => rfl
  | cons s rest ih =>
    cases s with
    | nonterminal n => simp at h
    | terminal n =>
      rw [hasNonterminal_terminal_cons] at h
      rw [terminals, List.map_cons, ← ih h]

/-- The names of a form without nonterminals are those of its terminals. -/
theorem terminals_eq_map_name {form : Form} (h : form.hasNonterminal = false) :
    form.terminals = form.map Symbol.name := by
  conv_rhs => rw [eq_map_terminal h, List.map_map]
  exact (List.map_id form.terminals).symm

end Form

/-! ## Weights -/

section Weight

variable {α β : Type}

/-- The sum of a weight over the items of a list. -/
def weight (f : α → Int) : List α → Int
  | [] => 0
  | a :: rest => f a + weight f rest

@[simp] theorem weight_nil (f : α → Int) : weight f [] = 0 := rfl

@[simp] theorem weight_cons (f : α → Int) (a : α) (rest : List α) :
    weight f (a :: rest) = f a + weight f rest := rfl

@[simp] theorem weight_append (f : α → Int) (l m : List α) :
    weight f (l ++ m) = weight f l + weight f m := by
  induction l with
  | nil => simp
  | cons a l ih =>
    rw [List.cons_append, weight_cons, weight_cons, ih]
    omega

theorem weight_map (f : β → Int) (g : α → β) (l : List α) :
    weight f (l.map g) = weight (fun a => f (g a)) l := by
  induction l with
  | nil => rfl
  | cons a l ih => rw [List.map_cons, weight_cons, weight_cons, ih]

end Weight

namespace Production

/-- A production expands a form by replacing its first nonterminal, which is the head, by the
body. -/
def Expands (p : Production) (form next : Form) : Prop :=
  ∃ before after : Form, before.hasNonterminal = false ∧
    form = before ++ p.headSymbol :: after ∧ next = before ++ p.body ++ after

/-- A production rewrites a form by replacing an occurrence of its head by the body. -/
def Rewrites (p : Production) (form next : Form) : Prop :=
  ∃ before after : Form, form = before ++ p.headSymbol :: after ∧ next = before ++ p.body ++ after

theorem expands_iff {p : Production} {form next : Form} :
    p.Expands form next ↔ ∃ before after,
      form.splitFirst? = some (before, p.head, after) ∧ next = before ++ p.body ++ after := by
  simp only [Expands, Form.splitFirst?_eq_some_iff, headSymbol]
  constructor
  · rintro ⟨before, after, hbefore, hform, hnext⟩
    exact ⟨before, after, ⟨hform, hbefore⟩, hnext⟩
  · rintro ⟨before, after, ⟨hform, hbefore⟩, hnext⟩
    exact ⟨before, after, hbefore, hform, hnext⟩

theorem Expands.rewrites {p : Production} {form next : Form} (h : p.Expands form next) :
    p.Rewrites form next := by
  obtain ⟨before, after, -, hform, hnext⟩ := h
  exact ⟨before, after, hform, hnext⟩

/-- A form that is rewritten has symbols of two kinds after it: those it had, and those of the
body. -/
theorem Rewrites.mem_or_mem_body {p : Production} {form next : Form} (h : p.Rewrites form next)
    {s : Symbol} (hs : s ∈ next) : s ∈ form ∨ s ∈ p.body := by
  obtain ⟨before, after, rfl, rfl⟩ := h
  simp only [List.mem_append, List.mem_cons] at hs ⊢
  rcases hs with (hs | hs) | hs
  · exact Or.inl (Or.inl hs)
  · exact Or.inr hs
  · exact Or.inl (Or.inr (Or.inr hs))

end Production

namespace Grammar

variable {g : Grammar} {form next : Form}

/-- One production of a grammar rewrites a form. -/
def Produces (g : Grammar) (form next : Form) : Prop := ∃ p ∈ g.productions, p.Rewrites form next

/-- A form is rewritten by productions of a grammar, one after the other. -/
def Derives (g : Grammar) : Form → Form → Prop := Relation.ReflTransGen g.Produces

/-- A text is generated if it is that of a terminal form to which the start symbol is rewritten. -/
def Generates (g : Grammar) (text : String) : Prop :=
  ∃ form : Form, g.Derives [g.start] form ∧ form.hasNonterminal = false ∧ text = form.terminalText

/-! ## Properties that rewriting keeps -/

/-- A property that every production keeps is kept by rewriting. -/
theorem Derives.invariant {P : Form → Prop} (h : g.Derives form next)
    (hstep : ∀ p ∈ g.productions, ∀ a b, p.Rewrites a b → P a → P b) (hform : P form) : P next := by
  induction h with
  | refl => exact hform
  | tail _ hlast ih =>
    obtain ⟨p, hp, hr⟩ := hlast
    exact hstep p hp _ _ hr ih

/-- A property of all symbols of the bodies stays one of all symbols of the form. -/
theorem Derives.forall_mem {P : Symbol → Prop} (h : g.Derives form next)
    (hbody : ∀ p ∈ g.productions, ∀ s ∈ p.body, P s) (hform : ∀ s ∈ form, P s) :
    ∀ s ∈ next, P s := by
  refine h.invariant (P := fun a => ∀ s ∈ a, P s) (fun p hp a b hr ha s hs => ?_) hform
  rcases hr.mem_or_mem_body hs with hs | hs
  · exact ha s hs
  · exact hbody p hp s hs

/-- A weight that every head shares with its bodies is kept. -/
theorem Derives.weight_eq {f : Symbol → Int} (h : g.Derives form next)
    (hbody : ∀ p ∈ g.productions, weight f p.body = f p.headSymbol) :
    weight f next = weight f form := by
  refine h.invariant (P := fun a => weight f a = weight f form) (fun p hp a b hr ha => ?_) rfl
  obtain ⟨before, after, rfl, rfl⟩ := hr
  rw [← ha]
  simp only [weight_append, weight_cons, hbody p hp]
  omega

/-- What may stand side by side is kept, if it is so inside each body, and if the ends of a body
may stand wherever its head may. -/
theorem Derives.isChain {R : Symbol → Symbol → Prop} (h : g.Derives form next)
    (hne : ∀ p ∈ g.productions, p.body ≠ [])
    (hbody : ∀ p ∈ g.productions, p.body.IsChain R)
    (hfirst : ∀ p ∈ g.productions, ∀ s x, p.body.head? = some x → R s p.headSymbol → R s x)
    (hlast : ∀ p ∈ g.productions, ∀ s x, p.body.getLast? = some x → R p.headSymbol s → R x s)
    (hform : form.IsChain R) : next.IsChain R := by
  refine h.invariant (fun p hp a b hr ha => ?_) hform
  obtain ⟨before, after, rfl, rfl⟩ := hr
  -- The neighbours of the body are those of the head, which the two conditions on its ends deal with.
  rw [List.isChain_append] at ha
  obtain ⟨hbefore, hrest, hleft⟩ := ha
  rw [List.append_assoc, List.isChain_append, List.isChain_append]
  rw [List.isChain_cons] at hrest
  refine ⟨hbefore, ⟨hbody p hp, hrest.2, ?_⟩, ?_⟩
  · intro x hx y hy
    exact hlast p hp y x hx (hrest.1 y hy)
  · intro x hx y hy
    rw [List.head?_append_of_ne_nil _ (hne p hp)] at hy
    exact hfirst p hp x y hy (hleft x hx p.headSymbol rfl)

end Grammar

end GrammarSuite
