import GrammarSuite.Grammar.Builtin
import GrammarSuite.Proofs.Action
import GrammarSuite.Proofs.Derivation.Completeness
import GrammarSuite.Proofs.Derivation.Evaluation
import GrammarSuite.Proofs.Grammar.Arithmetic
import GrammarSuite.Proofs.Grammar.Tokens

/-!
# Balanced parentheses

A word of parentheses is balanced if no prefix closes more of them than it opens, and the whole
opens as many as it closes. The built-in grammar of parentheses derives exactly these words.

The forms of a leftmost derivation all look alike. What has been derived stands in front, and behind
it a nonterminal for each parenthesis that is still open and one more, with a closing parenthesis
between any two of them. From such a form every expansion settles the next parenthesis: the longer
production opens one, and the empty one closes one, or ends the word if none is open. A word has
therefore one derivation, with one expansion for each of its parentheses and one for its end.

## Main definitions

* `IsBalanced`: a balanced word of parentheses
* `Closes`: a word that closes so many open parentheses
* `Form.pending`: what stands behind the derived part of a form
* `Grammar.IsParentheses`: a grammar of parentheses
* `shownWord`: a word as it is derived

## Main results

* `closes_iff`: words that close open parentheses, by their prefixes
* `Grammar.IsParentheses.closes_of_leads`, `Grammar.IsParentheses.exists_leads`: the steps from a
  form derive the words that close what is open, and all of these
* `Engine.isBalanced_of_derive`, `Engine.exists_derive_of_isBalanced`: a grammar of parentheses
  derives the balanced words
* `Builtin.derives_balancedParens`: so does the built-in grammar of parentheses
-/

namespace GrammarSuite

open Token

/-! ## Words of parentheses -/

/-- A balanced word of parentheses. -/
structure IsBalanced (word : List String) : Prop where
  paren : ∀ t ∈ word, t = openParen ∨ t = closeParen
  prefix_le : ∀ k, (word.take k).count closeParen ≤ (word.take k).count openParen
  count_eq : word.count openParen = word.count closeParen

/-- A word closes as many parentheses as are open before it, and those that it opens itself. -/
inductive Closes : Nat → List String → Prop
  | nil : Closes 0 []
  | opening {k : Nat} {word : List String} (h : Closes (k + 1) word) : Closes k (openParen :: word)
  | closing {k : Nat} {word : List String} (h : Closes k word) : Closes (k + 1) (closeParen :: word)

@[simp] theorem count_openParen_cons_closeParen (word : List String) :
    (closeParen :: word).count openParen = word.count openParen :=
  List.count_cons_of_ne (by decide)

@[simp] theorem count_closeParen_cons_openParen (word : List String) :
    (openParen :: word).count closeParen = word.count closeParen :=
  List.count_cons_of_ne (by decide)

namespace Closes

variable {k : Nat} {word : List String}

theorem paren (h : Closes k word) : ∀ t ∈ word, t = openParen ∨ t = closeParen := by
  induction h with
  | nil => simp
  | opening _ ih => exact List.forall_mem_cons.2 ⟨.inl rfl, ih⟩
  | closing _ ih => exact List.forall_mem_cons.2 ⟨.inr rfl, ih⟩

theorem count_eq (h : Closes k word) : word.count closeParen = k + word.count openParen := by
  induction h with
  | nil => rfl
  | opening _ ih =>
    rw [count_closeParen_cons_openParen, List.count_cons_self, ih]
    omega
  | closing _ ih =>
    rw [List.count_cons_self, count_openParen_cons_closeParen, ih]
    omega

theorem prefix_le (h : Closes k word) (i : Nat) :
    (word.take i).count closeParen ≤ k + (word.take i).count openParen := by
  -- The empty prefix closes nothing, and a longer one starts with the first parenthesis.
  induction h generalizing i with
  | nil => simp
  | opening _ ih =>
    cases i with
    | zero => simp
    | succ i =>
      have := ih i
      rw [List.take_succ_cons, count_closeParen_cons_openParen, List.count_cons_self]
      omega
  | closing _ ih =>
    cases i with
    | zero => simp
    | succ i =>
      have := ih i
      rw [List.take_succ_cons, List.count_cons_self, count_openParen_cons_closeParen]
      omega

/-- A word is twice as long as what it opens, but for the parentheses that were open before it. -/
theorem length_eq (h : Closes k word) : word.length = 2 * word.count openParen + k := by
  induction h with
  | nil => rfl
  | opening _ ih =>
    rw [List.length_cons, List.count_cons_self, ih]
    omega
  | closing _ ih =>
    rw [List.length_cons, count_openParen_cons_closeParen, ih]
    omega

end Closes

/-- **A word closes what is open** if no prefix of it closes more than is open by then, and the
whole closes it all. -/
theorem closes_iff {k : Nat} {word : List String} :
    Closes k word ↔ (∀ t ∈ word, t = openParen ∨ t = closeParen) ∧
      (∀ i, (word.take i).count closeParen ≤ k + (word.take i).count openParen) ∧
      word.count closeParen = k + word.count openParen := by
  refine ⟨fun h => ⟨h.paren, h.prefix_le, h.count_eq⟩, ?_⟩
  rintro ⟨hparen, hprefix, hcount⟩
  induction word generalizing k with
  | nil =>
    obtain rfl : k = 0 := by simpa using hcount.symm
    exact .nil
  | cons t word ih =>
    obtain ⟨ht, hrest⟩ := List.forall_mem_cons.1 hparen
    -- The prefixes of the rest are those of the word behind its first parenthesis.
    have htail := fun i => hprefix (i + 1)
    simp only [List.take_succ_cons] at htail
    rcases ht with rfl | rfl
    · simp only [List.count_cons_self, count_closeParen_cons_openParen] at htail hcount
      refine .opening (ih hrest (fun i => ?_) (by omega))
      have := htail i
      omega
    · simp only [List.count_cons_self, count_openParen_cons_closeParen] at htail hcount
      -- The first parenthesis alone is a prefix, so that one is open before it.
      have hfirst := htail 0
      simp only [List.take_zero, List.count_nil] at hfirst
      obtain ⟨k, rfl⟩ : ∃ k', k = k' + 1 := ⟨k - 1, by omega⟩
      refine .closing (ih hrest (fun i => ?_) (by omega))
      have := htail i
      omega

theorem isBalanced_iff {word : List String} : IsBalanced word ↔ Closes 0 word := by
  rw [closes_iff]
  simp only [Nat.zero_add]
  exact ⟨fun ⟨h₁, h₂, h₃⟩ => ⟨h₁, h₂, h₃.symm⟩, fun ⟨h₁, h₂, h₃⟩ => ⟨h₁, h₂, h₃.symm⟩⟩

/-! ## Steps from a form -/

theorem Form.hasNonterminal_concat_terminal (form : Form) (t : String) :
    hasNonterminal (form ++ [.terminal t]) = form.hasNonterminal := by
  simp [hasNonterminal, Symbol.isNonterminal]

/-- The production that opens and closes a parenthesis. -/
def Production.pair (name : String) : Production :=
  ⟨name, [.terminal openParen, .nonterminal name, .terminal closeParen, .nonterminal name]⟩

/-- The production of the empty form. -/
def Production.empty (name : String) : Production := ⟨name, []⟩

/-- What stands behind the derived part of a form when so many parentheses are open. -/
def Form.pending (name : String) : Nat → Form
  | 0 => [.nonterminal name]
  | k + 1 => .nonterminal name :: .terminal closeParen :: pending name k

namespace Form

variable (name : String) (k : Nat) (before : Form)

theorem pending_eq_cons : pending name k = .nonterminal name :: (pending name k).tail := by
  cases k <;> rfl

/-- A pair opens a parenthesis. -/
theorem append_pair : before ++ (Production.pair name).body ++ (pending name k).tail =
    (before ++ [.terminal openParen]) ++ pending name (k + 1) := by
  rw [pending, pending_eq_cons]
  simp [Production.pair]

/-- Nothing ends the word if no parenthesis is open. -/
theorem append_empty_zero : before ++ (Production.empty name).body ++ (pending name 0).tail =
    before := by
  simp [Production.empty, pending]

/-- Nothing comes before the parenthesis that closes an open one. -/
theorem append_empty_succ : before ++ (Production.empty name).body ++ (pending name (k + 1)).tail =
    (before ++ [.terminal closeParen]) ++ pending name k := by
  simp [Production.empty, pending]

end Form

namespace Grammar

variable {g : Grammar} {name : String} {bound taken k : Nat} {before : Form} {steps : List Step}

/-- A terminal form is not expanded. -/
theorem Leads.eq_nil {form : Form} (h : g.Leads bound taken form steps)
    (hform : form.hasNonterminal = false) : steps = [] := by
  cases h with
  | done => rfl
  | step hadvances hrest =>
    obtain ⟨p, -, -, hexpands, -⟩ := hadvances
    obtain ⟨before, after, hsplit, -⟩ := Production.expands_iff.1 hexpands
    rw [Form.splitFirst?_eq_none_iff.2 hform] at hsplit
    cases hsplit

/-- A grammar of parentheses has one nonterminal, with a production for a pair of parentheses and an
empty one. -/
structure IsParentheses (g : Grammar) (name : String) : Prop where
  start : g.start = .nonterminal name
  productions : g.productions = [.pair name, .empty name]

/-- One of the two productions is applied in a step. None is left-recursive, so that there is never
any pressure. -/
theorem IsParentheses.advances_iff (hg : g.IsParentheses name) (bound taken k : Nat)
    (hbefore : before.hasNonterminal = false) {s : Step} :
    g.Advances bound taken (before ++ .pending name k) s ↔
      ∃ p, (p = .pair name ∨ p = .empty name) ∧
        s = ⟨before ++ p.body ++ (Form.pending name k).tail, some p⟩ := by
  have hsplit := Form.splitFirst?_append hbefore name (Form.pending name k).tail
  rw [← Form.pending_eq_cons] at hsplit
  constructor
  · rintro ⟨p, hp, hproduction, hexpands, -⟩
    obtain ⟨before', after, hsplit', hnext⟩ := Production.expands_iff.1 hexpands
    rw [hsplit] at hsplit'
    obtain ⟨rfl, -, rfl⟩ :
        before = before' ∧ name = p.head ∧ (Form.pending name k).tail = after := by
      simpa using hsplit'
    rw [hg.productions, List.mem_pair] at hp
    exact ⟨p, hp, by rw [← hnext, ← hproduction]⟩
  · rintro ⟨p, hp, rfl⟩
    have hhead : p.head = name := by rcases hp with rfl | rfl <;> rfl
    have hdirect : p.isLeftRecursive = false := by
      rcases hp with rfl | rfl <;>
        simp [Production.isLeftRecursive, Production.pair, Production.empty,
          Production.headSymbol]
    refine ⟨p, by rwa [hg.productions, List.mem_pair], rfl, ?_, fun _ _ => hdirect⟩
    exact Production.expands_iff.2 ⟨before, _, by rw [hhead, hsplit], rfl⟩

/-- **The steps from a form** derive a word that closes what is open, with one expansion for each
parenthesis and one for the end. -/
theorem IsParentheses.closes_of_leads (hg : g.IsParentheses name) {form : Form}
    (h : g.Leads bound taken form steps) (hform : form = before ++ .pending name k)
    (hbefore : before.hasNonterminal = false) {origin : Option Production} {last : Step}
    (hlast : (⟨form, origin⟩ :: steps).getLast? = some last) :
    ∃ word, Closes k word ∧ last.form = before ++ word.map .terminal ∧
      steps.length = word.length + 1 := by
  -- Induction on the steps, each of which settles one parenthesis.
  induction h generalizing before k origin with
  | done hterminal =>
    rw [hform, Form.pending_eq_cons] at hterminal
    simp [Form.hasNonterminal, Symbol.isNonterminal] at hterminal
  | @step taken form s rest hadvances hrest ih =>
    subst hform
    rw [List.getLast?_cons_cons] at hlast
    obtain ⟨p, rfl | rfl, rfl⟩ := (hg.advances_iff bound taken k hbefore).1 hadvances
    · obtain ⟨word, hword, hform, hlength⟩ := ih (Form.append_pair name k before)
        (by rwa [Form.hasNonterminal_concat_terminal]) hlast
      exact ⟨openParen :: word, .opening hword, by simp [hform], by simp [hlength]⟩
    · cases k with
      | zero =>
        rw [Form.append_empty_zero] at hrest hlast
        obtain rfl := hrest.eq_nil hbefore
        obtain rfl := Option.some.inj hlast
        exact ⟨[], .nil, by simp, rfl⟩
      | succ k =>
        obtain ⟨word, hword, hform, hlength⟩ := ih (Form.append_empty_succ name k before)
          (by rwa [Form.hasNonterminal_concat_terminal]) hlast
        exact ⟨closeParen :: word, .closing hword, by simp [hform], by simp [hlength]⟩

/-- **Every word that closes what is open** is derived by steps from a form, with one expansion for
each parenthesis and one for the end. -/
theorem IsParentheses.exists_leads (hg : g.IsParentheses name) {word : List String}
    (h : Closes k word) (before : Form) (hbefore : before.hasNonterminal = false)
    (bound taken : Nat) (origin : Option Production) :
    ∃ steps last, g.Leads bound taken (before ++ .pending name k) steps ∧
      (⟨before ++ .pending name k, origin⟩ :: steps).getLast? = some last ∧
      last.form = before ++ word.map .terminal ∧ steps.length = word.length + 1 := by
  -- Induction on the word: its next parenthesis decides which production is applied.
  induction h generalizing before taken origin with
  | nil =>
    have hstep := (hg.advances_iff bound taken 0 hbefore).2
      ⟨.empty name, .inr rfl, rfl⟩
    rw [Form.append_empty_zero] at hstep
    exact ⟨_, _, .step hstep (.done hbefore), rfl, by simp, rfl⟩
  | @opening k word _ ih =>
    have hstep := (hg.advances_iff bound taken k hbefore).2
      ⟨.pair name, .inl rfl, rfl⟩
    rw [Form.append_pair] at hstep
    obtain ⟨steps, last, hleads, hlast, hform, hlength⟩ :=
      ih (before ++ [.terminal openParen])
        (by rwa [Form.hasNonterminal_concat_terminal]) (taken + 1) (some (.pair name))
    exact ⟨_, last, .step hstep hleads, by rwa [List.getLast?_cons_cons], by simp [hform],
      by simp [hlength]⟩
  | @closing k word _ ih =>
    have hstep := (hg.advances_iff bound taken (k + 1) hbefore).2
      ⟨.empty name, .inr rfl, rfl⟩
    rw [Form.append_empty_succ] at hstep
    obtain ⟨steps, last, hleads, hlast, hform, hlength⟩ :=
      ih (before ++ [.terminal closeParen])
        (by rwa [Form.hasNonterminal_concat_terminal]) (taken + 1) (some (.empty name))
    exact ⟨_, last, .step hstep hleads, by rwa [List.getLast?_cons_cons], by simp [hform],
      by simp [hlength]⟩

end Grammar

/-! ## The built-in grammar -/

/-- A word as it is derived: its tokens with single blanks between them, or `ε` if there are
none. -/
def shownWord (word : List String) : String :=
  if word = [] then epsilon else Text.unwords word

theorem tokenize_shownWord {word : List String} (h : IsBalanced word) (hne : word ≠ []) :
    tokenize (shownWord word) = word := by
  have hwords : ∀ t ∈ word, Text.IsWord t.toList := by
    intro t ht
    rcases h.paren t ht with rfl | rfl <;> decide
  rw [shownWord, if_neg hne, tokenize_unwords_of_isWord hwords]

namespace Engine

open GrammarSuite.Random

variable {σ : Type} [Source σ] {g : Grammar} {name : String}

/-- A grammar of parentheses derives balanced words only, with two expansions for each pair of
parentheses and one for the end. -/
theorem isBalanced_of_derive {e e' : Engine σ} {d : Derivation} (hg : e.grammar.IsParentheses name)
    (h : derive.runOn e = (.ok d, e')) :
    ∃ word, IsBalanced word ∧ d.text = shownWord word ∧
      d.expansions = 2 * word.count openParen + 1 := by
  obtain ⟨steps, rfl, hleads, -⟩ := leads_of_derive h
  obtain ⟨last, hlast, -, -⟩ := hleads.derives none
  have hstart : [e.grammar.start] = [] ++ Form.pending name 0 := by rw [hg.start]; rfl
  obtain ⟨word, hword, hform, hlength⟩ := hg.closes_of_leads hleads hstart rfl hlast
  refine ⟨word, isBalanced_iff.2 hword, ?_, ?_⟩
  · rw [finish_text hlast, hform, List.nil_append, Grammar.terminalText_map_terminal]
    rfl
  · rw [Derivation.expansions, finish, List.length_cons, hlength, hword.length_eq]
    omega

/-- A grammar of parentheses derives every balanced word whose expansions the bound allows. -/
theorem exists_derive_of_isBalanced {D : Nat} (hg : g.IsParentheses name) {word : List String}
    (h : IsBalanced word) (hD : 2 * word.count openParen + 1 ≤ D) :
    ∃ (source : Recorded Script) (e e' : Engine (Recorded Script)) (d : Derivation),
      ofBound g (.int D) source = .ok e ∧ derive.runOn e = (.ok d, e') ∧
        d.text = shownWord word := by
  have hword := isBalanced_iff.1 h
  obtain ⟨steps, last, hleads, hlast, hform, hlength⟩ :=
    hg.exists_leads hword [] rfl D 0 none
  have hstart : [] ++ Form.pending name 0 = [g.start] := by rw [hg.start]; rfl
  rw [hstart] at hleads hlast
  have hfits : steps.length ≤ D := by
    rw [hlength, hword.length_eq]
    omega
  obtain ⟨first, others, e, e', d, he, hderive, rfl, -⟩ :=
    exists_script_of_leads (by omega) hleads hfits
  refine ⟨_, e, e', _, he, hderive, ?_⟩
  rw [finish_text hlast, hform, List.nil_append, Grammar.terminalText_map_terminal]
  rfl

end Engine

namespace Builtin

open GrammarSuite.Random Engine

theorem parts?_balancedParens :
    parts? .balancedParens = some (.nonterminal "S", [.pair "S", .empty "S"]) := by
  decide +kernel

/-- **The grammar of balanced parentheses derives the balanced words.** It is found by its name.
Whatever is drawn, a text that it derives is `ε`, after one expansion, or the tokens of a balanced
word, after two expansions for each pair of parentheses and one for the end. Every balanced word
whose expansions the bound allows is derived with some source, the empty one as `ε`. -/
theorem derives_balancedParens :
    ofValue (.text "balanced_parens") = .ok .balancedParens ∧
      ∃ g, balancedParens.grammar = .ok g ∧ ∀ D : Nat,
        (∀ {σ : Type} [Source σ] (source : σ) (e e' : Engine σ) (d : Derivation),
          ofBound g (.int D) source = .ok e → derive.runOn e = (.ok d, e') →
            (d.text = "ε" ∧ d.expansions = 1) ∨
            (tokenize d.text ≠ [] ∧ IsBalanced (tokenize d.text) ∧
              d.text = Text.unwords (tokenize d.text) ∧
              d.expansions = 2 * (tokenize d.text).count "(" + 1)) ∧
        ∀ word, IsBalanced word → 2 * word.count "(" + 1 ≤ D →
          ∃ (source : Recorded Script) (e e' : Engine (Recorded Script)) (d : Derivation),
            ofBound g (.int D) source = .ok e ∧ derive.runOn e = (.ok d, e') ∧
              d.text = if word = [] then "ε" else Text.unwords word := by
  obtain ⟨g, hgrammar, hstart, hproductions⟩ := parts?_eq_some_iff.1 parts?_balancedParens
  have hg : g.IsParentheses "S" := ⟨hstart, hproductions⟩
  refine ⟨by decide +kernel, g, hgrammar, fun D => ⟨fun source e e' d he hderive => ?_, ?_⟩⟩
  · have hgrammar : e.grammar = g := by
      obtain ⟨b, -, rfl⟩ := Action.map_eq_ok_iff.1 he
      rfl
    obtain ⟨word, hword, htext, hexpansions⟩ := isBalanced_of_derive (hgrammar ▸ hg) hderive
    by_cases hne : word = []
    · subst hne
      exact .inl ⟨htext, hexpansions⟩
    · have htokens := tokenize_shownWord hword hne
      rw [← htext] at htokens
      rw [htokens]
      refine .inr ⟨hne, hword, ?_, hexpansions⟩
      rw [htext, shownWord, if_neg hne]
  · exact fun word hword hD => exists_derive_of_isBalanced hg hword hD

/-- One pair of parentheses takes three expansions. -/
theorem derives_balancedParens_pair :
    ∃ g, balancedParens.grammar = .ok g ∧
      ∃ (source : Recorded Script) (e e' : Engine (Recorded Script)) (d : Derivation),
        ofBound g (.int (3 : Nat)) source = .ok e ∧ derive.runOn e = (.ok d, e') ∧
          d.text = "( )" ∧ d.expansions = 3 := by
  obtain ⟨-, g, hg, hderives⟩ := derives_balancedParens
  obtain ⟨hsound, hcomplete⟩ := hderives 3
  have hpair : IsBalanced ["(", ")"] := isBalanced_iff.2 (.opening (.closing .nil))
  obtain ⟨source, e, e', d, he, hderive, htext⟩ := hcomplete ["(", ")"] hpair (by decide)
  have htext : d.text = "( )" := htext
  refine ⟨g, hg, source, e, e', d, he, hderive, htext, ?_⟩
  rcases hsound source e e' d he hderive with ⟨hempty, -⟩ | ⟨-, -, -, hexpansions⟩
  · rw [htext] at hempty
    exact absurd hempty (by decide)
  · have htokens : tokenize "( )" = ["(", ")"] := tokenize_shownWord hpair (by decide)
    rwa [htext, htokens] at hexpansions

end Builtin

end GrammarSuite
