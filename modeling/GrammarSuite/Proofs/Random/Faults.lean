import GrammarSuite.Proofs.Extreme.Best
import GrammarSuite.Proofs.Mutation.Exact

/-!
# Draws without faults

Whatever a lawful source answers, nothing is drawn from an empty range and nothing is looked up
outside a list. Derivations and searches fail at their bound or where the grammar lacks productions,
and in no other way; a fault of a draw is passed over by nothing, so that it would be seen.
Mutations of a text do not fail at all.

Putting in, taking out and cutting are defined at every position. That edits only use positions
inside their lists and texts is therefore said of edits that look at each position first.

## Main definitions

* `Failure.IsOfGrammar`: the failures that a grammar and a bound are the reason for
* `Random.checked`: a position that must be in a range
* `MutationKind.checkedEdit`: the edit of a kind, with each of its positions checked

## Main results

* `MutationKind.checkedEdit_eq`: all positions of an edit are inside their lists and texts
* `Mutator.mutations_of_text`: mutations of a text do not fail
* `draws_without_faults`: engines, mutators and finders meet no fault
-/

namespace GrammarSuite

open GrammarSuite.Action GrammarSuite.Random

/-- The failures that a grammar and a bound are the reason for: the bound was reached, or a symbol
has no productions. -/
def Failure.IsOfGrammar : Failure → Prop
  | .depthExceeded _ | .noProductions _ => True
  | .badBound _ | .badIndex _ _ _ | .fault _ | .misuse _ => False

theorem Grammar.IsLack.isOfGrammar {g : Grammar} {f : Failure} (h : g.IsLack f) :
    f.IsOfGrammar := by
  obtain ⟨n, rfl, -⟩ := h
  trivial

namespace Random

variable {σ : Type}

/-- A position, which must be in the range from `low` up to but not including `high`. -/
def checked (low high position : Nat) : Draw σ Nat :=
  if low ≤ position ∧ position < high then pure position else throw (.noItem position high)

theorem checked_of_mem {low high position : Nat} (h : low ≤ position ∧ position < high) :
    (checked low high position : Draw σ Nat) = pure position :=
  if_pos h

end Random

/-- An expansion of a symbol fails only where the symbol has no productions. -/
theorem Engine.expand_failsOnly {σ : Type} [Source σ] [LawfulSource σ] (s : Symbol) (e : Engine σ) :
    (expand s).FailsOnly e Failure.IsOfGrammar := by
  unfold expand
  refine FailsOnly.bind (fun f t h => by cases h) fun e₁ t h => ?_
  refine FailsOnly.bind ((choose_failsOnly _).within ?_) fun p u _ => .pure _
  rintro _ ⟨rfl, -⟩
  trivial

/-! ## Edits that look at their positions -/

namespace MutationKind

section Definitions

variable {σ : Type} [Source σ]

/-- Deletes one of the positions, if there are any, which must be positions of the list. -/
def checkedDelete (tokens : List String) (positions : List Nat) : Draw σ (List String) :=
  if positions.isEmpty then pure tokens
  else do
    let position ← pick positions
    let position ← checked 0 tokens.length position
    pure (tokens.eraseIdx position)

/-- Deletes a parenthesis, or inserts one at a place of the list or at its end. -/
def checkedUnbalance (tokens : List String) : Draw σ (List String) :=
  let parens := Token.positions Token.isParen tokens
  if parens.isEmpty then do
    let position ← draw 0 (tokens.length + 1)
    let side ← draw 0 2
    let position ← checked 0 (tokens.length + 1) position
    pure (insertAt tokens position [if side = 0 then Token.openParen else Token.closeParen])
  else checkedDelete tokens parens

/-- Doubles an operator behind its position, or inserts two before the position of a token. -/
def checkedDuplicate (tokens : List String) : Draw σ (List String) :=
  let operators := Token.positions Token.isOperator tokens
  if operators.isEmpty then do
    let position ← draw 0 tokens.length
    let position ← checked 0 tokens.length position
    pure (insertAt tokens position ["+", "+"])
  else do
    let position ← pick operators
    let operator ← item tokens position
    let behind ← checked 0 (tokens.length + 1) (position + 1)
    pure (insertAt tokens behind [operator])

/-- Cuts a drawn token in two inside it, if it is longer than one character. -/
def checkedSplit (tokens : List String) : Draw σ (List String) := do
  let position ← draw 0 tokens.length
  let token ← item tokens position
  if 1 < Text.size token then
    let cut ← draw 1 (Text.size token)
    let cut ← checked 1 (Text.size token) cut
    let position ← checked 0 tokens.length position
    let (front, back) := Text.split cut token
    pure (tokens.set position (front ++ " " ++ back))
  else pure tokens

/-- The edit of a kind, with each of its positions checked. -/
def checkedEdit (identifier : String) (tokens : List String) :
    MutationKind → Draw σ (List String)
  | unbalancedParens => checkedUnbalance tokens
  | duplicateOperator => checkedDuplicate tokens
  | leadingOperator => do
    let operator ← pick Token.operators
    pure (operator :: tokens)
  | trailingOperator => do
    let operator ← pick Token.operators
    pure (tokens ++ [operator])
  | emptyParens => do
    let position ← draw 0 (tokens.length + 1)
    let position ← checked 0 (tokens.length + 1) position
    pure (insertAt tokens position [Token.openParen, Token.closeParen])
  | missingOperator => checkedDelete tokens (Token.positions Token.isOperator tokens)
  | missingOperand => checkedDelete tokens (Token.positions (Token.isIdentifier identifier) tokens)
  | invalidCharacter => do
    let position ← draw 0 (tokens.length + 1)
    let character ← pick invalidCharacters
    let position ← checked 0 (tokens.length + 1) position
    pure (insertAt tokens position [character])
  | splitToken => checkedSplit tokens

end Definitions

variable {σ : Type} [Source σ] [LawfulSource σ] {tokens : List String}

theorem lt_length_of_mem_positions {p : String → Bool} {i : Nat}
    (h : i ∈ Token.positions p tokens) : i < tokens.length := by
  obtain ⟨t, ht, -⟩ := Token.mem_positions.1 h
  exact (List.getElem?_eq_some_iff.1 ht).1

theorem checkedDelete_eq (p : String → Bool) (tokens : List String) (s : σ) :
    (checkedDelete tokens (Token.positions p tokens)).runOn s =
      (deleteOne tokens (Token.positions p tokens)).runOn s := by
  unfold checkedDelete deleteOne
  by_cases h : Token.positions p tokens = []
  · rw [if_pos (List.isEmpty_iff.2 h), if_pos (List.isEmpty_iff.2 h)]
  · rw [if_neg (mt List.isEmpty_iff.1 h), if_neg (mt List.isEmpty_iff.1 h)]
    refine (pick_returns h s).bind_congr fun i t hi => ?_
    rw [checked_of_mem ⟨Nat.zero_le i, lt_length_of_mem_positions hi⟩, pure_bind]

theorem checkedUnbalance_eq (tokens : List String) (s : σ) :
    (checkedUnbalance tokens).runOn s = (unbalance tokens).runOn s := by
  unfold checkedUnbalance unbalance
  by_cases h : Token.positions Token.isParen tokens = []
  · rw [if_pos (List.isEmpty_iff.2 h), if_pos (List.isEmpty_iff.2 h)]
    refine (draw_returns (Nat.zero_lt_succ _) s).bind_congr fun i t hi => ?_
    refine (draw_returns Nat.zero_lt_two t).bind_congr fun side u _ => ?_
    rw [checked_of_mem hi.2, pure_bind]
  · rw [if_neg (mt List.isEmpty_iff.1 h), if_neg (mt List.isEmpty_iff.1 h)]
    exact checkedDelete_eq Token.isParen tokens s

theorem checkedDuplicate_eq (hne : tokens ≠ []) (s : σ) :
    (checkedDuplicate tokens).runOn s = (duplicate tokens).runOn s := by
  unfold checkedDuplicate duplicate
  by_cases h : Token.positions Token.isOperator tokens = []
  · rw [if_pos (List.isEmpty_iff.2 h), if_pos (List.isEmpty_iff.2 h)]
    refine (draw_returns (List.length_pos_iff.2 hne) s).bind_congr fun i t hi => ?_
    rw [checked_of_mem hi.2, pure_bind]
  · rw [if_neg (mt List.isEmpty_iff.1 h), if_neg (mt List.isEmpty_iff.1 h)]
    refine (pick_returns h s).bind_congr fun i t hi => ?_
    have hlt := lt_length_of_mem_positions hi
    -- Behind the last token is a place, too.
    have hplace : 0 ≤ i + 1 ∧ i + 1 < tokens.length + 1 := ⟨Nat.zero_le _, by omega⟩
    simp only [checked_of_mem hplace, pure_bind]

theorem checkedSplit_eq (hne : tokens ≠ []) (s : σ) :
    (checkedSplit tokens).runOn s = (split tokens).runOn s := by
  unfold checkedSplit split
  refine (draw_returns (List.length_pos_iff.2 hne) s).bind_congr fun i t hi => ?_
  have hitem : tokens[i]? = some tokens[i] := List.getElem?_eq_getElem hi.2.2
  refine (item_returns hitem (Q := fun _ _ => True) trivial).bind_congr fun token u _ => ?_
  by_cases hsize : 1 < Text.size token
  · rw [if_pos hsize, if_pos hsize]
    refine (draw_returns hsize u).bind_congr fun cut v hcut => ?_
    rw [checked_of_mem hcut.2, pure_bind, checked_of_mem hi.2, pure_bind]
  · rw [if_neg hsize, if_neg hsize]

/-- **All positions of an edit are inside their lists and texts**: checking them makes no
difference. -/
theorem checkedEdit_eq (identifier : String) (hne : tokens ≠ []) (kind : MutationKind) (s : σ) :
    (kind.checkedEdit identifier tokens).runOn s = (kind.edit identifier tokens).runOn s := by
  cases kind with
  | unbalancedParens => exact checkedUnbalance_eq tokens s
  | duplicateOperator => exact checkedDuplicate_eq hne s
  | leadingOperator => rfl
  | trailingOperator => rfl
  | emptyParens =>
    refine (draw_returns (Nat.zero_lt_succ _) s).bind_congr fun i t hi => ?_
    rw [checked_of_mem hi.2, pure_bind]
  | missingOperator => exact checkedDelete_eq Token.isOperator tokens s
  | missingOperand => exact checkedDelete_eq (Token.isIdentifier identifier) tokens s
  | invalidCharacter =>
    refine (draw_returns (Nat.zero_lt_succ _) s).bind_congr fun i t hi => ?_
    refine (pick_returns (by decide) t).bind_congr fun character u _ => ?_
    rw [checked_of_mem hi.2, pure_bind]
  | splitToken => exact checkedSplit_eq hne s

end MutationKind

/-! ## Mutations of any text -/

namespace Mutator

variable {σ : Type} [Source σ] [LawfulSource σ] {m : Mutator σ} {identifier : String}

/-- A mutation of a text does not fail, and gives none exactly if the text has no tokens. -/
theorem mutate_of_text (hidentifier : m.identifier = .text identifier) (text : String)
    (kind : MutationKind) :
    (mutate text kind).Returns m fun r _ => r = none ↔ Token.tokenize text = [] := by
  by_cases hne : Token.tokenize text = []
  · rw [mutate, if_pos (List.isEmpty_iff.2 hne)]
    exact .pure ⟨fun _ => hne, fun _ => rfl⟩
  · refine (mutate_returns hidentifier hne
      (MutationKind.edit_returns identifier hne kind m.source)).mono ?_
    rintro _ _ ⟨edited, -, rfl⟩
    exact iff_of_false (by simp) hne

/-- **Mutations of a text do not fail**, and are as many as are asked for if the text has tokens. -/
theorem mutations_of_text (hidentifier : m.identifier = .text identifier) (text : String)
    (n : Nat) :
    (mutations (.text text) (.int n)).Returns m fun ms _ =>
      ms.length = if Token.tokenize text = [] then 0 else n := by
  by_cases hne : Token.tokenize text = []
  · rw [if_pos hne]
    obtain ⟨ms, m', hms, rfl⟩ := collect_of_tokenize_eq_nil hne n m
    have hrun : ((mutations (.text text) (.int n)).runOn m).1 = .ok [] :=
      mutations_eq_ok_iff.2 ⟨n, rfl, by rw [Int.toNat_natCast, hms]⟩
    refine (Returns.of_runOn hrun).mono ?_
    rintro _ _ ⟨rfl, -⟩
    rfl
  · rw [if_neg hne]
    exact (mutations_returns hne hidentifier).mono fun _ _ h => h.1

end Mutator

/-! ## No faults -/

/-- **Engines, mutators and finders meet no fault.** With every lawful source, derivations,
expansions and searches fail only for reasons of the grammar and the bound, mutations of a text do
not fail, and edits use no position outside their lists and texts. So no range that is drawn from is
empty, and no list is looked up at a position that it has not. -/
theorem draws_without_faults {σ : Type} [Source σ] [LawfulSource σ] :
    (∀ e : Engine σ,
      Engine.derive.FailsOnly e Failure.IsOfGrammar ∧
      Engine.attempt.FailsOnly e Failure.IsOfGrammar ∧
      (∀ n : Nat, (Engine.derivations (.int n)).FailsOnly e Failure.IsOfGrammar) ∧
      ∀ s : Symbol, (Engine.expand s).FailsOnly e Failure.IsOfGrammar) ∧
    (∀ (m : Mutator σ) (identifier text : String), m.identifier = .text identifier →
      (∀ kind, (Mutator.mutate text kind).Returns m fun r _ =>
        r = none ↔ Token.tokenize text = []) ∧
      ∀ n : Nat, (Mutator.mutations (.text text) (.int n)).Returns m fun ms _ =>
        ms.length = if Token.tokenize text = [] then 0 else n) ∧
    (∀ (identifier : String) (tokens : List String) (kind : MutationKind) (s : σ), tokens ≠ [] →
      (kind.checkedEdit identifier tokens).runOn s = (kind.edit identifier tokens).runOn s) ∧
    ∀ (f : Finder σ) (bound : Nat), 0 < bound → f.depthBound = .int bound →
      (∀ kind, (Finder.find kind).FailsOnly f Failure.IsOfGrammar) ∧
      ∀ n : Nat, (Finder.findAll (.int n)).FailsOnly f Failure.IsOfGrammar := by
  refine ⟨fun e => ⟨?_, ?_, fun n => ?_, fun s => ?_⟩, fun m identifier text h => ⟨?_, ?_⟩, ?_,
    fun f bound hpos hbound => ⟨fun kind => ?_, fun n => ?_⟩⟩
  · refine (Engine.derive_failsOnly e).mono ?_
    rintro _ (⟨d, rfl⟩ | hlack)
    · trivial
    · exact hlack.isOfGrammar
  · exact (Engine.attempt_failsOnly e).mono fun _ => Grammar.IsLack.isOfGrammar
  · exact (Engine.derivations_failsOnly n e).mono fun _ => Grammar.IsLack.isOfGrammar
  · exact Engine.expand_failsOnly s e
  · exact fun kind => Mutator.mutate_of_text h text kind
  · exact fun n => Mutator.mutations_of_text h text n
  · exact fun identifier tokens kind s hne => MutationKind.checkedEdit_eq identifier hne kind s
  · refine (Finder.find_failsOnly hpos kind hbound).mono ?_
    rintro _ (⟨⟨d, rfl⟩, -⟩ | hlack)
    · trivial
    · exact hlack.isOfGrammar
  · exact (Finder.findRepeated_failsOnly hpos _ _ n hbound).mono fun _ => Grammar.IsLack.isOfGrammar

/-- A script meets no fault with repeated letters, nor with a sum that is edited. -/
theorem script_without_faults :
    Engine.derive.FailsOnly Engine.letterEngine Failure.IsOfGrammar ∧
      (Finder.findAll (.int (2 : Nat))).FailsOnly Finder.letterFinder Failure.IsOfGrammar ∧
      (∀ n : Nat, (Mutator.mutations (.text "id + id") (.int n)).Returns
        (Mutator.scripted "id" 2 [1, 0]) fun ms _ => ms.length = n) ∧
      (MutationKind.checkedEdit "id" ["id", "+", "id"] .splitToken).runOn
          ({ first := 2, others := [1, 0] } : Script) =
        (.ok ["id", "+", "i d"], { first := 2, others := [1, 0], ahead := [0] }) := by
  obtain ⟨hengine, hmutator, hedit, hfinder⟩ := draws_without_faults (σ := Script)
  have htokens : Token.tokenize "id + id" ≠ [] := by decide
  refine ⟨(hengine Engine.letterEngine).1, (hfinder _ 6 (by decide) rfl).2 2, fun n => ?_, ?_⟩
  · refine ((hmutator _ "id" "id + id" rfl).2 n).mono fun ms _ hlength => ?_
    rwa [if_neg htokens] at hlength
  · rw [hedit "id" _ .splitToken _ (by decide)]
    rfl

end GrammarSuite
