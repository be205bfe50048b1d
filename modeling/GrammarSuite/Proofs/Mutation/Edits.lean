import GrammarSuite.Mutation
import GrammarSuite.Proofs.Random.Returns

/-!
# What an edit does

Each kind of edit changes one place of a list of tokens, which is said here with the tokens before
and after that place and without reference to how the place is drawn. From a lawful source an edit of
a nonempty list always succeeds, and does nothing else.

## Main definitions

* `Edit`: one edit of a kind

## Main results

* `Edit.forall_mem`: what holds of the tokens of an edited list
* `MutationKind.split_returns`: what is cut is the token at the drawn position
* `MutationKind.edit_returns`: an edit of a kind succeeds, and is one
-/

namespace GrammarSuite

open GrammarSuite.Random GrammarSuite.Action

/-- One edit of a kind, for a spelling of the identifier: from tokens to tokens. -/
inductive Edit (identifier : String) : MutationKind → List String → List String → Prop
  | dropParen {before t after} (ht : Token.isParen t = true) :
    Edit identifier .unbalancedParens (before ++ t :: after) (before ++ after)
  | addParen {before t after} (hnone : ∀ u ∈ before ++ after, Token.isParen u = false)
    (ht : Token.isParen t = true) :
    Edit identifier .unbalancedParens (before ++ after) (before ++ t :: after)
  | doubleOperator {before t after} (ht : Token.isOperator t = true) :
    Edit identifier .duplicateOperator (before ++ t :: after) (before ++ t :: t :: after)
  | addOperators {before after} (hnone : ∀ u ∈ before ++ after, Token.isOperator u = false)
    (hafter : after ≠ []) :
    Edit identifier .duplicateOperator (before ++ after) (before ++ "+" :: "+" :: after)
  | lead {t tokens} (ht : t ∈ Token.operators) :
    Edit identifier .leadingOperator tokens (t :: tokens)
  | trail {t tokens} (ht : t ∈ Token.operators) :
    Edit identifier .trailingOperator tokens (tokens ++ [t])
  | addParens {before after} :
    Edit identifier .emptyParens (before ++ after) (before ++ "(" :: ")" :: after)
  | dropOperator {before t after} (ht : Token.isOperator t = true) :
    Edit identifier .missingOperator (before ++ t :: after) (before ++ after)
  | noOperator {tokens} (hnone : ∀ u ∈ tokens, Token.isOperator u = false) :
    Edit identifier .missingOperator tokens tokens
  | dropOperand {before t after} (ht : Token.isIdentifier identifier t = true) :
    Edit identifier .missingOperand (before ++ t :: after) (before ++ after)
  | noOperand {tokens} (hnone : ∀ u ∈ tokens, Token.isIdentifier identifier u = false) :
    Edit identifier .missingOperand tokens tokens
  | addCharacter {before t after} (ht : t ∈ MutationKind.invalidCharacters) :
    Edit identifier .invalidCharacter (before ++ after) (before ++ t :: after)
  | cut {before t after n} (hpos : 0 < n) (hlt : n < Text.size t) :
    Edit identifier .splitToken (before ++ t :: after)
      (before ++ (Text.split n t).1 :: (Text.split n t).2 :: after)
  | short {before t after} (ht : Text.size t ≤ 1) :
    Edit identifier .splitToken (before ++ t :: after) (before ++ t :: after)

/-- What holds of the tokens, of all that an edit puts in and of the pieces that it cuts holds of the
edited tokens. -/
theorem Edit.forall_mem {identifier : String} {kind : MutationKind} {tokens edited : List String}
    {P : String → Prop} (h : Edit identifier kind tokens edited) (hold : ∀ t ∈ tokens, P t)
    (hparen : ∀ t, Token.isParen t = true → P t) (hoperator : ∀ t ∈ Token.operators, P t)
    (hcharacter : ∀ t ∈ MutationKind.invalidCharacters, P t)
    (hcut : ∀ t ∈ tokens, ∀ n, 0 < n → n < Text.size t →
      P (Text.split n t).1 ∧ P (Text.split n t).2) : ∀ t ∈ edited, P t := by
  cases h with
  | dropParen _ | dropOperator _ | dropOperand _ =>
    simp only [List.forall_mem_append, List.forall_mem_cons] at hold ⊢
    exact ⟨hold.1, hold.2.2⟩
  | addParen _ ht =>
    simp only [List.forall_mem_append, List.forall_mem_cons] at hold ⊢
    exact ⟨hold.1, hparen _ ht, hold.2⟩
  | doubleOperator _ =>
    simp only [List.forall_mem_append, List.forall_mem_cons] at hold ⊢
    exact ⟨hold.1, hold.2.1, hold.2⟩
  | addOperators _ _ =>
    have hplus := hoperator "+" (by decide)
    simp only [List.forall_mem_append, List.forall_mem_cons] at hold ⊢
    exact ⟨hold.1, hplus, hplus, hold.2⟩
  | lead ht => exact List.forall_mem_cons.2 ⟨hoperator _ ht, hold⟩
  | trail ht => exact List.forall_mem_append.2 ⟨hold, List.forall_mem_singleton.2 (hoperator _ ht)⟩
  | addParens =>
    simp only [List.forall_mem_append, List.forall_mem_cons] at hold ⊢
    exact ⟨hold.1, hparen "(" rfl, hparen ")" rfl, hold.2⟩
  | addCharacter ht =>
    simp only [List.forall_mem_append, List.forall_mem_cons] at hold ⊢
    exact ⟨hold.1, hcharacter _ ht, hold.2⟩
  | cut hpos hlt =>
    obtain ⟨hfront, hback⟩ := hcut _ (by simp) _ hpos hlt
    simp only [List.forall_mem_append, List.forall_mem_cons] at hold ⊢
    exact ⟨hold.1, hfront, hback, hold.2.2⟩
  | noOperator _ | noOperand _ | short _ => exact hold

/-! ## Places of a list -/

/-- An item of a list has items before and after it. -/
theorem exists_append_of_getElem? {α : Type} {l : List α} {i : Nat} {a : α} (h : l[i]? = some a) :
    ∃ before after, l = before ++ a :: after ∧ before.length = i := by
  obtain ⟨hi, rfl⟩ := List.getElem?_eq_some_iff.1 h
  refine ⟨l.take i, l.drop (i + 1), ?_, List.length_take_of_le (Nat.le_of_lt hi)⟩
  rw [List.getElem_cons_drop, List.take_append_drop]

namespace Token

theorem positions_eq_nil_iff {p : String → Bool} {tokens : List String} :
    positions p tokens = [] ↔ ∀ t ∈ tokens, p t = false := by
  simp only [List.eq_nil_iff_forall_not_mem, mem_positions, not_exists, not_and]
  constructor
  · intro h t ht
    obtain ⟨i, hi⟩ := List.getElem?_of_mem ht
    exact Bool.eq_false_iff.2 (h i t hi)
  · intro h i t hi
    exact Bool.eq_false_iff.1 (h t (List.mem_of_getElem? hi))

end Token

namespace Text

/-- A text of two words counts as the two words among others. -/
theorem unwords_append_cons (before after : List String) (front back : String) :
    unwords (before ++ (front ++ " " ++ back) :: after) =
      unwords (before ++ front :: back :: after) := by
  have hrest : unwords ((front ++ " " ++ back) :: after) = unwords (front :: back :: after) := by
    cases after <;> simp [unwords, String.intercalate_cons_cons, String.append_assoc]
  cases before with
  | nil => exact hrest
  | cons t before =>
    -- The blank before the place stands on both sides.
    unfold unwords at hrest ⊢
    rw [String.intercalate_append_of_ne_nil (by simp) (by simp), hrest,
      String.intercalate_append_of_ne_nil (by simp) (by simp)]

end Text

/-! ## The edits of the kinds -/

namespace MutationKind

variable {σ : Type}

/-- Tokens are put in between those before a position and those from there on. -/
theorem insertAt_eq (tokens : List String) (n : Nat) (inserted : List String) :
    ∃ before after, tokens = before ++ after ∧
      insertAt tokens n inserted = before ++ inserted ++ after ∧
      (n < tokens.length → after ≠ []) := by
  refine ⟨tokens.take n, tokens.drop n, (List.take_append_drop n tokens).symm, rfl, ?_⟩
  intro hn hnil
  exact absurd (List.drop_eq_nil_iff.1 hnil) (by omega)

variable [Source σ] [LawfulSource σ]

/-- One of the tokens with a property is deleted, if there are any. -/
theorem deleteOne_returns (p : String → Bool) (tokens : List String) (s : σ) :
    (deleteOne tokens (Token.positions p tokens)).Returns s fun r _ =>
      (∃ before t after, tokens = before ++ t :: after ∧ p t = true ∧ r = before ++ after) ∨
      (∀ t ∈ tokens, p t = false) ∧ r = tokens := by
  unfold deleteOne
  by_cases h : Token.positions p tokens = []
  · rw [if_pos (List.isEmpty_iff.2 h)]
    exact .pure (.inr ⟨Token.positions_eq_nil_iff.1 h, rfl⟩)
  · rw [if_neg (mt List.isEmpty_iff.1 h)]
    refine (pick_returns h s).bind fun i t hi => .pure (.inl ?_)
    obtain ⟨u, hu, hp⟩ := Token.mem_positions.1 hi
    obtain ⟨before, after, rfl, rfl⟩ := exists_append_of_getElem? hu
    exact ⟨before, u, after, rfl, hp, by simp [List.eraseIdx_append_of_length_le]⟩

theorem unbalance_returns (identifier : String) (tokens : List String) (s : σ) :
    (unbalance tokens).Returns s fun r _ => Edit identifier .unbalancedParens tokens r := by
  unfold unbalance
  by_cases h : Token.positions Token.isParen tokens = []
  · rw [if_pos (List.isEmpty_iff.2 h)]
    refine (draw_returns (by omega) s).bind fun n t _ =>
      (draw_returns (by omega) t).bind fun side u _ => .pure ?_
    have hnone := Token.positions_eq_nil_iff.1 h
    obtain ⟨before, after, rfl, hinsert, -⟩ :=
      insertAt_eq tokens n [if side = 0 then Token.openParen else Token.closeParen]
    rw [hinsert, List.append_assoc]
    refine .addParen hnone ?_
    split <;> rfl
  · rw [if_neg (mt List.isEmpty_iff.1 h)]
    -- There is a parenthesis, so one is deleted.
    obtain ⟨r, t, hr, ⟨before, u, after, rfl, hu, rfl⟩ | ⟨hnone, -⟩⟩ :=
      deleteOne_returns Token.isParen tokens s
    · exact ⟨_, t, hr, .dropParen hu⟩
    · exact absurd (Token.positions_eq_nil_iff.2 hnone) h

theorem duplicate_returns (identifier : String) {tokens : List String} (hne : tokens ≠ []) (s : σ) :
    (duplicate tokens).Returns s fun r _ => Edit identifier .duplicateOperator tokens r := by
  unfold duplicate
  by_cases h : Token.positions Token.isOperator tokens = []
  · rw [if_pos (List.isEmpty_iff.2 h)]
    refine (draw_returns (List.length_pos_iff.2 hne) s).bind fun n t hn => .pure ?_
    have hnone := Token.positions_eq_nil_iff.1 h
    obtain ⟨before, after, rfl, hinsert, hafter⟩ := insertAt_eq tokens n ["+", "+"]
    rw [hinsert, List.append_assoc]
    exact .addOperators hnone (hafter hn.2.2)
  · rw [if_neg (mt List.isEmpty_iff.1 h)]
    refine (pick_returns h s).bind fun i t hi => ?_
    obtain ⟨u, hu, hoperator⟩ := Token.mem_positions.1 hi
    refine item_returns hu (Q := fun v w => v = u ∧ w = t) ⟨rfl, rfl⟩ |>.bind ?_
    rintro v w ⟨rfl, rfl⟩
    refine .pure ?_
    obtain ⟨before, after, rfl, rfl⟩ := exists_append_of_getElem? hu
    -- The operator goes behind the one that it doubles.
    have hinsert : insertAt (before ++ v :: after) (before.length + 1) [v] =
        before ++ v :: v :: after := by
      simp [insertAt, List.take_append, List.drop_append, List.take_of_length_le,
        List.drop_of_length_le]
    rw [hinsert]
    exact .doubleOperator hoperator

/-- The token at the drawn position is cut in two if it is longer than one character. -/
theorem split_returns {tokens : List String} (hne : tokens ≠ []) (s : σ) :
    (split tokens).Returns s fun r _ => ∃ t, tokens[(Source.next 0 tokens.length s).1]? = some t ∧
      (Text.size t ≤ 1 ∧ r = tokens ∨ 1 < Text.size t ∧ ∃ before after n,
        tokens = before ++ t :: after ∧ 0 < n ∧ n < Text.size t ∧
        Text.unwords r =
          Text.unwords (before ++ (Text.split n t).1 :: (Text.split n t).2 :: after)) := by
  unfold split
  refine (draw_returns (List.length_pos_iff.2 hne) s).bind fun i t hi => ?_
  obtain ⟨hnext, -, hi⟩ := hi
  have hitem : tokens[i]? = some tokens[i] := List.getElem?_eq_getElem hi
  refine item_returns hitem (Q := fun v _ => v = tokens[i]) rfl |>.bind fun u v hu => ?_
  subst hu
  by_cases hsize : 1 < Text.size tokens[i]
  · rw [if_pos hsize]
    refine (draw_returns hsize v).bind fun n w hn => .pure ⟨tokens[i], ?_, .inr ⟨hsize, ?_⟩⟩
    · rw [hnext, hitem]
    · obtain ⟨before, after, htokens, hlength⟩ := exists_append_of_getElem? hitem
      refine ⟨before, after, n, htokens, hn.2.1, hn.2.2, ?_⟩
      -- The two pieces stand in one place of the list, with the blank between them.
      rw [← Text.unwords_append_cons]
      congr 1
      generalize tokens[i] = u at htokens ⊢
      subst htokens hlength
      rw [List.set_append_right _ _ (Nat.le_refl _), Nat.sub_self, List.set_cons_zero]
      rfl
  · rw [if_neg hsize]
    exact .pure ⟨tokens[i], by rw [hnext, hitem], .inl ⟨by omega, rfl⟩⟩

/-- **An edit of a kind succeeds on a nonempty list, and is one**, up to the blank with which a token
is cut. A cut leaves the tokens as they are only if the drawn one is too short. -/
theorem edit_returns (identifier : String) {tokens : List String} (hne : tokens ≠ [])
    (kind : MutationKind) (s : σ) :
    (edit identifier tokens kind).Returns s fun r _ =>
      ∃ edited, Edit identifier kind tokens edited ∧ Text.unwords r = Text.unwords edited ∧
        (kind = .splitToken → edited = tokens →
          ∃ t, tokens[(Source.next 0 tokens.length s).1]? = some t ∧ Text.size t ≤ 1) := by
  cases kind with
  | unbalancedParens =>
    obtain ⟨r, t, hr, hedit⟩ := unbalance_returns identifier tokens s
    exact ⟨r, t, hr, r, hedit, rfl, nofun⟩
  | duplicateOperator =>
    obtain ⟨r, t, hr, hedit⟩ := duplicate_returns identifier hne s
    exact ⟨r, t, hr, r, hedit, rfl, nofun⟩
  | leadingOperator =>
    exact (pick_returns (by decide) s).bind fun u t hu => .pure ⟨_, .lead hu, rfl, nofun⟩
  | trailingOperator =>
    exact (pick_returns (by decide) s).bind fun u t hu => .pure ⟨_, .trail hu, rfl, nofun⟩
  | emptyParens =>
    refine (draw_returns (by omega) s).bind fun n t _ => .pure ?_
    obtain ⟨before, after, rfl, hinsert, -⟩ :=
      insertAt_eq tokens n [Token.openParen, Token.closeParen]
    rw [hinsert, List.append_assoc]
    exact ⟨_, .addParens, rfl, nofun⟩
  | missingOperator =>
    obtain ⟨r, t, hr, ⟨before, u, after, rfl, hu, rfl⟩ | ⟨hnone, rfl⟩⟩ :=
      deleteOne_returns Token.isOperator tokens s
    · exact ⟨_, t, hr, _, .dropOperator hu, rfl, nofun⟩
    · exact ⟨_, t, hr, _, .noOperator hnone, rfl, nofun⟩
  | missingOperand =>
    obtain ⟨r, t, hr, ⟨before, u, after, rfl, hu, rfl⟩ | ⟨hnone, rfl⟩⟩ :=
      deleteOne_returns (Token.isIdentifier identifier) tokens s
    · exact ⟨_, t, hr, _, .dropOperand hu, rfl, nofun⟩
    · exact ⟨_, t, hr, _, .noOperand hnone, rfl, nofun⟩
  | invalidCharacter =>
    refine (draw_returns (by omega) s).bind fun n t _ =>
      (pick_returns (by decide) t).bind fun u v hu => .pure ?_
    obtain ⟨before, after, rfl, hinsert, -⟩ := insertAt_eq tokens n [u]
    rw [hinsert, List.append_assoc]
    exact ⟨_, .addCharacter hu, rfl, nofun⟩
  | splitToken =>
    obtain ⟨r, t, hr, u, hu, ⟨hsize, rfl⟩ | ⟨-, before, after, n, rfl, hpos, hlt, htext⟩⟩ :=
      split_returns hne s
    · obtain ⟨before, after, htokens, -⟩ := exists_append_of_getElem? hu
      refine ⟨r, t, hr, r, ?_, rfl, fun _ _ => ⟨u, hu, hsize⟩⟩
      rw [htokens]
      exact .short hsize
    · refine ⟨r, t, hr, _, .cut hpos hlt, htext, fun _ heq => ?_⟩
      simp at heq

end MutationKind

end GrammarSuite
