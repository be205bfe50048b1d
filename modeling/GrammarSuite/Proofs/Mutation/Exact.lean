import GrammarSuite.Proofs.Mutation.Collection
import GrammarSuite.Proofs.Random.Reaches

/-!
# Mutations are the edits of their kind

What a mutation can give is exactly what one edit of its kind gives: from every lawful source the
result is such an edit, and every such edit is drawn by some source. The tokens of a result are those
of the edited list, as the text has no tokens but its words, and the pieces of a word are words.

The same holds of a number of mutations: the results are edits of drawn kinds, and every list of
edits is drawn.

## Main definitions

* `Mutation.IsEdit`: a text with one edit of the kind that it remembers

## Main results

* `Edit.tokenize_unwords`: the tokens of an edited text are the edited tokens
* `MutationKind.edit_reaches`: every edit is drawn
* `Mutator.collect_reaches`: every list of edits is drawn
* `Mutator.mutations_are_edits`: what mutations can give
-/

namespace GrammarSuite

open GrammarSuite.Random GrammarSuite.Action

variable {identifier text : String} {kind : MutationKind} {tokens edited before after : List String}
  {t : String}

/-! ## Tokens of edited texts -/

/-- **The tokens of an edited text are the edited tokens.** -/
theorem Edit.tokenize_unwords (h : Edit identifier kind (Token.tokenize text) edited)
    (hspelled : Text.IsSpelled text.toList) : Token.tokenize (Text.unwords edited) = edited := by
  refine Token.tokenize_unwords_of_isWord (h.forall_mem (fun t ht => Token.isWord_of_mem_tokenize ht)
    (fun t => isWord_of_isParen) (by decide) (by decide) fun t ht n hpos hlt => ?_)
  exact Text.isWord_split (Token.isSpelled_of_mem_tokenize hspelled ht)
    (Token.isWord_of_mem_tokenize ht) hpos hlt

/-! ## Every edit is drawn -/

namespace MutationKind

theorem position_mem {p : String → Bool} (ht : p t = true) :
    before.length ∈ Token.positions p (before ++ t :: after) :=
  Token.mem_positions.2 ⟨t, by simp, ht⟩

theorem insertAt_length (inserted : List String) :
    insertAt (before ++ after) before.length inserted = before ++ inserted ++ after := by
  simp [insertAt]

/-- Every token with a property can be deleted. -/
theorem deleteOne_reaches {p : String → Bool} (ht : p t = true) :
    Reaches (deleteOne (before ++ t :: after) (Token.positions p (before ++ t :: after)))
      (before ++ after) := by
  have hmem : before.length ∈ Token.positions p (before ++ t :: after) := position_mem ht
  have herase : (before ++ t :: after).eraseIdx before.length = before ++ after := by
    simp [List.eraseIdx_append_of_length_le]
  rw [deleteOne, if_neg (by simpa using List.ne_nil_of_mem hmem), ← herase]
  exact (pick_reaches hmem).bind (.pure _)

/-- Nothing is deleted where no token has the property. -/
theorem deleteOne_reaches_self {p : String → Bool} (hnone : ∀ u ∈ tokens, p u = false) :
    Reaches (deleteOne tokens (Token.positions p tokens)) tokens := by
  rw [deleteOne, if_pos (List.isEmpty_iff.2 (Token.positions_eq_nil_iff.2 hnone))]
  exact .pure tokens

/-- Every place of a list can be drawn, that at its end too. -/
theorem place_reaches (before after : List String) :
    Reaches (draw 0 ((before ++ after).length + 1) : Draw Script Nat) before.length := by
  refine draw_reaches (Nat.zero_le _) ?_
  rw [List.length_append]
  omega

/-- A parenthesis can be put in anywhere, if there is none. -/
theorem unbalance_reaches (hnone : ∀ u ∈ before ++ after, Token.isParen u = false)
    (ht : Token.isParen t = true) :
    Reaches (unbalance (before ++ after)) (before ++ t :: after) := by
  -- The side that is drawn stands for one of the two parentheses.
  obtain ⟨side, hside, hparen⟩ : ∃ side < 2,
      (if side = 0 then Token.openParen else Token.closeParen) = t := by
    rw [Token.isParen, decide_eq_true_eq] at ht
    rcases ht with rfl | rfl
    · exact ⟨0, by decide, rfl⟩
    · exact ⟨1, by decide, rfl⟩
  rw [unbalance, if_pos (List.isEmpty_iff.2 (Token.positions_eq_nil_iff.2 hnone))]
  refine (place_reaches before after).bind ((draw_reaches (Nat.zero_le side) hside).bind ?_)
  rw [hparen, insertAt_length, List.append_assoc]
  exact .pure _

/-- Every operator can be doubled. -/
theorem duplicate_reaches (ht : Token.isOperator t = true) :
    Reaches (duplicate (before ++ t :: after)) (before ++ t :: t :: after) := by
  have hmem : before.length ∈ Token.positions Token.isOperator (before ++ t :: after) :=
    position_mem ht
  have hinsert : insertAt (before ++ t :: after) (before.length + 1) [t] =
      before ++ t :: t :: after := by
    have hlength : (before ++ [t]).length = before.length + 1 := by simp
    rw [List.append_cons, ← hlength, insertAt_length]
    simp
  rw [duplicate, if_neg (by simpa using List.ne_nil_of_mem hmem), ← hinsert]
  exact (pick_reaches hmem).bind ((item_reaches (by simp)).bind (.pure _))

/-- Two operators can be put in before every token, if there is none. -/
theorem duplicate_reaches_insert (hnone : ∀ u ∈ before ++ after, Token.isOperator u = false)
    (hafter : after ≠ []) :
    Reaches (duplicate (before ++ after)) (before ++ "+" :: "+" :: after) := by
  have hlt : before.length < (before ++ after).length := by
    have := List.length_pos_iff.2 hafter
    rw [List.length_append]
    omega
  rw [duplicate, if_pos (List.isEmpty_iff.2 (Token.positions_eq_nil_iff.2 hnone))]
  refine (draw_reaches (Nat.zero_le _) hlt).bind ?_
  rw [insertAt_length, List.append_assoc]
  exact .pure _

/-- Every token can be drawn to be cut, and every place in it. -/
theorem split_reaches {n : Nat} (hpos : 0 < n) (hlt : n < Text.size t) :
    Reaches (split (before ++ t :: after))
      (before ++ ((Text.split n t).1 ++ " " ++ (Text.split n t).2) :: after) := by
  have hset : (before ++ t :: after).set before.length
      ((Text.split n t).1 ++ " " ++ (Text.split n t).2) =
      before ++ ((Text.split n t).1 ++ " " ++ (Text.split n t).2) :: after := by
    rw [List.set_append_right _ _ (Nat.le_refl _), Nat.sub_self, List.set_cons_zero]
  refine (draw_reaches (Nat.zero_le before.length) (by simp)).bind
    ((item_reaches (a := t) (by simp)).bind ?_)
  rw [if_pos (by omega), ← hset]
  exact (draw_reaches hpos hlt).bind (.pure _)

/-- A token of one character can be drawn to be cut, which changes nothing. -/
theorem split_reaches_self (ht : Text.size t ≤ 1) :
    Reaches (split (before ++ t :: after)) (before ++ t :: after) := by
  refine (draw_reaches (Nat.zero_le before.length) (by simp)).bind
    ((item_reaches (a := t) (by simp)).bind ?_)
  rw [if_neg (by omega)]
  exact .pure _

/-- **Every edit of a kind is drawn**, up to the blank with which a token is cut. -/
theorem edit_reaches (h : Edit identifier kind tokens edited) :
    ∃ r, Text.unwords r = Text.unwords edited ∧ Reaches (edit identifier tokens kind) r := by
  cases h with
  | @dropParen before t after ht =>
    refine ⟨_, rfl, ?_⟩
    have hmem : before.length ∈ Token.positions Token.isParen (before ++ t :: after) :=
      position_mem ht
    rw [edit, unbalance, if_neg (by simpa using List.ne_nil_of_mem hmem)]
    exact deleteOne_reaches ht
  | addParen hnone ht => exact ⟨_, rfl, unbalance_reaches hnone ht⟩
  | doubleOperator ht => exact ⟨_, rfl, duplicate_reaches ht⟩
  | addOperators hnone hafter => exact ⟨_, rfl, duplicate_reaches_insert hnone hafter⟩
  | lead ht => exact ⟨_, rfl, (pick_reaches ht).bind (.pure _)⟩
  | trail ht => exact ⟨_, rfl, (pick_reaches ht).bind (.pure _)⟩
  | @addParens before after =>
    refine ⟨_, rfl, (place_reaches before after).bind ?_⟩
    rw [insertAt_length, List.append_assoc]
    exact .pure _
  | dropOperator ht => exact ⟨_, rfl, deleteOne_reaches ht⟩
  | noOperator hnone => exact ⟨_, rfl, deleteOne_reaches_self hnone⟩
  | dropOperand ht => exact ⟨_, rfl, deleteOne_reaches ht⟩
  | noOperand hnone => exact ⟨_, rfl, deleteOne_reaches_self hnone⟩
  | @addCharacter before t after ht =>
    refine ⟨_, rfl, (place_reaches before after).bind ((pick_reaches ht).bind ?_)⟩
    rw [insertAt_length, List.append_assoc]
    exact .pure _
  | cut hpos hlt => exact ⟨_, Text.unwords_append_cons _ _ _ _, split_reaches hpos hlt⟩
  | short ht => exact ⟨_, rfl, split_reaches_self ht⟩

end MutationKind

/-! ## Mutations -/

/-- A text with one edit of the kind that it remembers, of a text that it remembers. -/
structure Mutation.IsEdit (identifier text : String) (x : Mutation) : Prop where
  unedited : x.unedited = text
  description : x.description = x.kind.description
  edit : Edit identifier x.kind (Token.tokenize text) (Token.tokenize x.text)

namespace Mutator

section Lawful

variable {σ : Type} [Source σ] [LawfulSource σ]

/-- A mutation of a text with tokens is an edit of its kind. -/
theorem mutate_isEdit {m : Mutator σ} (hspelled : Text.IsSpelled text.toList)
    (hidentifier : m.identifier = .text identifier) (hne : Token.tokenize text ≠ [])
    (kind : MutationKind) :
    (mutate text kind).Returns m fun r _ =>
      ∃ x : Mutation, r = some x ∧ x.kind = kind ∧ x.IsEdit identifier text := by
  refine (mutate_returns hidentifier hne
    (MutationKind.edit_returns identifier hne kind m.source)).mono ?_
  rintro _ _ ⟨r, ⟨edited, hedit, hr, -⟩, rfl⟩
  refine ⟨_, rfl, rfl, rfl, rfl, ?_⟩
  dsimp only
  rw [hr, hedit.tokenize_unwords hspelled]
  exact hedit

/-- As many mutations as are asked for are edits. -/
theorem collect_isEdit {m : Mutator σ} (hspelled : Text.IsSpelled text.toList)
    (hidentifier : m.identifier = .text identifier) (hne : Token.tokenize text ≠ []) (n : Nat) :
    (collect (.text text) n).Returns m fun ms _ =>
      ms.length = n ∧ ∀ x ∈ ms, x.IsEdit identifier text := by
  refine collect_returns_of (fun kind m hm => ?_) n hidentifier
  refine Returns.mono (mutate_isEdit hspelled hm hne kind) ?_
  rintro _ _ ⟨x, rfl, -, hx⟩
  exact ⟨x, rfl, hx⟩

/-- A text without tokens has no mutations, however many are asked for. -/
theorem collect_of_tokenize_eq_nil (h : Token.tokenize text = []) (n : Nat) (m : Mutator σ) :
    (collect (.text text) n).Returns m fun ms _ => ms = [] := by
  induction n generalizing m with
  | zero => exact .pure rfl
  | succ n ih =>
    obtain ⟨kind, s, hkind, -⟩ := pick_returns (by decide : MutationKind.all ≠ []) m.source
    have hdrawn : (drawn (pick MutationKind.all)).runOn m = (.ok kind, { m with source := s }) :=
      runOn_within_eq_ok.2 ⟨s, hkind, rfl⟩
    have hmutation : (mutateValue (.text text) kind).runOn { m with source := s } =
        (.ok none, { m with source := s }) := by
      show (mutate text kind).runOn _ = _
      rw [mutate, if_pos (List.isEmpty_iff.2 h)]
      rfl
    obtain ⟨rest, m', hrest, rfl⟩ := ih { m with source := s }
    exact ⟨[], m', collect_succ_eq_ok_iff.2 ⟨kind, _, none, _, [], hdrawn, hmutation, hrest, rfl⟩, rfl⟩

/-- **A number of mutations are edits**, as many as are asked for if the text has tokens. -/
theorem mutations_isEdit {m : Mutator σ} (hspelled : Text.IsSpelled text.toList)
    (hidentifier : m.identifier = .text identifier) (n : Nat) :
    (mutations (.text text) (.int n)).Returns m fun ms _ =>
      ms.length = (if Token.tokenize text = [] then 0 else n) ∧
        ∀ x ∈ ms, x.IsEdit identifier text := by
  have hcollect : (collect (.text text) n).Returns m fun ms _ =>
      ms.length = (if Token.tokenize text = [] then 0 else n) ∧
        ∀ x ∈ ms, x.IsEdit identifier text := by
    by_cases hnil : Token.tokenize text = []
    · rw [if_pos hnil]
      refine (collect_of_tokenize_eq_nil hnil n m).mono ?_
      rintro _ _ rfl
      simp
    · rw [if_neg hnil]
      exact collect_isEdit hspelled hidentifier hnil n
  obtain ⟨ms, m', hms, hall⟩ := hcollect
  exact (Returns.of_runOn (mutations_eq_ok_iff.2 ⟨n, rfl, by rw [Int.toNat_natCast, hms]⟩)).mono
    fun _ _ h => h.1 ▸ hall

end Lawful

/-- Every edit of a text is drawn by a mutation, and no number behind those for it. -/
theorem mutate_reaches (hspelled : Text.IsSpelled text.toList) (hne : Token.tokenize text ≠ [])
    (h : Edit identifier kind (Token.tokenize text) edited) :
    ∃ numbers : List Int, ∀ (m : Mutator Script) (rest : List Int),
      m.identifier = .text identifier → m.source.ahead = numbers ++ rest →
        (mutate text kind).Returns m fun r m' => m'.source.ahead = rest ∧
          ∃ x, r = some x ∧ x.kind = kind ∧ Token.tokenize x.text = edited := by
  obtain ⟨r, hr, numbers, hnumbers⟩ := MutationKind.edit_reaches h
  refine ⟨numbers, fun m rest hidentifier hahead => ?_⟩
  have hedit : (kind.edit identifier (Token.tokenize text)).Returns m.source
      fun tokens s => tokens = r ∧ s.ahead = rest :=
    ⟨r, _, hnumbers m.source rest hahead, rfl, rfl⟩
  refine (mutate_returns hidentifier hne hedit).mono ?_
  rintro _ m' ⟨_, ⟨rfl, hrest⟩, rfl⟩
  refine ⟨hrest, _, rfl, rfl, ?_⟩
  dsimp only
  rw [hr, h.tokenize_unwords hspelled]

/-- **Every list of edits of a text is drawn**, each edit behind its kind. -/
theorem collect_reaches {edits : List (MutationKind × List String)}
    (hspelled : Text.IsSpelled text.toList) (hne : Token.tokenize text ≠ [])
    (h : ∀ e ∈ edits, Edit identifier e.1 (Token.tokenize text) e.2) :
    ∃ numbers : List Int, ∀ (m : Mutator Script) (rest : List Int),
      m.identifier = .text identifier → m.source.ahead = numbers ++ rest →
        (collect (.text text) edits.length).Returns m fun ms _ =>
          ms.map (fun x => (x.kind, Token.tokenize x.text)) = edits := by
  -- Induction on the edits. Each one takes the numbers of its kind, then those of its place.
  induction edits with
  | nil => exact ⟨[], fun _ _ _ _ => .pure rfl⟩
  | cons e edits ih =>
    obtain ⟨hedit, hedits⟩ := List.forall_mem_cons.1 h
    have hkind : e.1 ∈ MutationKind.all := by cases e.1 <;> decide
    obtain ⟨first, hfirst⟩ := pick_reaches hkind
    obtain ⟨second, hsecond⟩ := mutate_reaches hspelled hne hedit
    obtain ⟨others, hothers⟩ := ih hedits
    refine ⟨first ++ (second ++ others), fun m rest hidentifier hahead => ?_⟩
    rw [List.append_assoc, List.append_assoc] at hahead
    have hdrawn : (drawn (pick MutationKind.all)).runOn m =
        (.ok e.1, { m with source := { m.source with ahead := second ++ (others ++ rest) } }) :=
      runOn_within_eq_ok.2 ⟨_, hfirst m.source _ hahead, rfl⟩
    obtain ⟨r, m', hr, hrest, x, rfl, hx, htokens⟩ := hsecond
      { m with source := { m.source with ahead := second ++ (others ++ rest) } } _ hidentifier rfl
    have hm' : m'.identifier = .text identifier := by
      have hkept := mutateValue_keeps (.text text) e.1
        { m with source := { m.source with ahead := second ++ (others ++ rest) } }
      rw [show (mutateValue (.text text) e.1).runOn _ = _ from hr] at hkept
      exact hkept.trans hidentifier
    obtain ⟨ms, m'', hms, hall⟩ := hothers m' rest hm' hrest
    refine ⟨x :: ms, m'', collect_succ_eq_ok_iff.2
      ⟨e.1, _, some x, m', ms, hdrawn, hr, hms, rfl⟩, ?_⟩
    dsimp only
    rw [List.map_cons, hall, hx, htokens]

/-- A mutator whose source repeats a list of numbers. -/
def scripted (identifier : String) (first : Int) (others : List Int) : Mutator Script where
  source := { first, others }
  identifier := .text identifier

/-- A list of numbers is at the start of one that is not empty. -/
theorem exists_cons_eq_append (numbers : List Int) :
    ∃ (first : Int) (others rest : List Int), first :: others = numbers ++ rest := by
  cases numbers with
  | nil => exact ⟨0, [], [0], rfl⟩
  | cons first others => exact ⟨first, others, [], (List.append_nil _).symm⟩

/-- **Mutations are exactly the single edits of their kind.** Of a text with tokens a mutation gives
one edit of its kind, from every lawful source, and every edit of the kind is given for some numbers.
A number of mutations are as many edits of drawn kinds, and every list of edits of kinds is given for
some numbers; a text without tokens has no mutations. Each result remembers the text as it was. -/
theorem mutations_are_edits (hspelled : Text.IsSpelled text.toList) :
    (Token.tokenize text ≠ [] → ∀ kind,
      (∀ {σ : Type} [Source σ] [LawfulSource σ] (m : Mutator σ), m.identifier = .text identifier →
        (mutate text kind).Returns m fun r _ =>
          ∃ x : Mutation, r = some x ∧ x.kind = kind ∧ x.IsEdit identifier text) ∧
      ∀ edited, Edit identifier kind (Token.tokenize text) edited → ∃ first others,
        (mutate text kind).Returns (scripted identifier first others) fun r _ =>
          ∃ x, r = some x ∧ Token.tokenize x.text = edited) ∧
    ∀ n : Nat,
      (∀ {σ : Type} [Source σ] [LawfulSource σ] (m : Mutator σ), m.identifier = .text identifier →
        (mutations (.text text) (.int n)).Returns m fun ms _ =>
          ms.length = (if Token.tokenize text = [] then 0 else n) ∧
            ∀ x ∈ ms, x.IsEdit identifier text) ∧
      (Token.tokenize text ≠ [] → ∀ edits : List (MutationKind × List String), edits.length = n →
        (∀ e ∈ edits, Edit identifier e.1 (Token.tokenize text) e.2) → ∃ first others,
          (mutations (.text text) (.int n)).Returns (scripted identifier first others) fun ms _ =>
            ms.map (fun x => (x.kind, Token.tokenize x.text)) = edits) := by
  refine ⟨fun hne kind => ⟨fun m hm => mutate_isEdit hspelled hm hne kind, fun edited h => ?_⟩,
    fun n => ⟨fun m hm => mutations_isEdit hspelled hm n, ?_⟩⟩
  · obtain ⟨numbers, hnumbers⟩ := mutate_reaches hspelled hne h
    obtain ⟨first, others, rest, hrest⟩ := exists_cons_eq_append numbers
    refine ⟨first, others, (hnumbers (scripted identifier first others) rest rfl hrest).mono ?_⟩
    rintro _ _ ⟨-, x, rfl, -, hx⟩
    exact ⟨x, rfl, hx⟩
  · rintro hne edits rfl h
    obtain ⟨numbers, hnumbers⟩ := collect_reaches hspelled hne h
    obtain ⟨first, others, rest, hrest⟩ := exists_cons_eq_append numbers
    obtain ⟨ms, m', hms, hall⟩ := hnumbers (scripted identifier first others) rest rfl hrest
    exact ⟨first, others, (Returns.of_runOn (mutations_eq_ok_iff.2 ⟨edits.length, rfl, by
      rw [Int.toNat_natCast, hms]⟩)).mono fun _ _ heq => heq.1 ▸ hall⟩

/-- The usual identifier can be cut into its two letters. -/
theorem mutations_of_identifier :
    Text.IsSpelled "id".toList ∧ Token.tokenize "id" = ["id"] ∧
      (∀ (m : Mutator Script), m.identifier = .text "id" →
        (mutate "id" .splitToken).Returns m fun r _ =>
          ∃ x : Mutation, r = some x ∧ x.kind = .splitToken ∧ x.IsEdit "id" "id") ∧
      ∃ first others, (mutate "id" .splitToken).Returns (scripted "id" first others) fun r _ =>
        ∃ x, r = some x ∧ Token.tokenize x.text = ["i", "d"] := by
  have hspelled : Text.IsSpelled "id".toList := by
    unfold Text.IsSpelled
    decide
  have htokens : Token.tokenize "id" = ["id"] := by decide
  have hne : Token.tokenize "id" ≠ [] := by simp [htokens]
  have hcut : Edit "id" .splitToken (Token.tokenize "id") ["i", "d"] := by
    rw [htokens]
    exact @Edit.cut "id" [] "id" [] 1 (by decide) (by decide)
  obtain ⟨hsound, hreached⟩ := (mutations_are_edits hspelled).1 hne .splitToken
  exact ⟨hspelled, htokens, hsound, hreached _ hcut⟩

end Mutator

end GrammarSuite
