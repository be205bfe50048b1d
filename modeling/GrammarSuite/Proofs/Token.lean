import GrammarSuite.Token
import Mathlib.Order.Bounds.Basic
import Mathlib.Order.MinMax

/-!
# The deepest nesting

The nesting of parentheses is found by one scan, which raises its level at every open parenthesis
and lowers it at every closed one, below zero where tokens are ill nested. It looks for a new
deepest level at open parentheses alone. Yet what it finds is the deepest level of all: the greatest
excess of open parentheses over closed ones among the prefixes of the tokens.

## Main definitions

* `Token.excess`: the excess of open parentheses over closed ones

## Main results

* `Token.nestingFrom_le_iff`, `Token.nestingFrom_mem`: what a scan finds from any level
* `Token.nestingDepth_is_greatest_excess`: the deepest nesting, and that of tokens that follow
  others
-/

namespace GrammarSuite.Token

variable {level deepest n : Int} {t : String} {tokens a b : List String}

/-- The excess of open parentheses over closed ones, which is negative where more are closed. -/
def excess (tokens : List String) : Int := tokens.count openParen - tokens.count closeParen

@[simp] theorem excess_nil : excess [] = 0 := rfl

theorem excess_append (a b : List String) : excess (a ++ b) = excess a + excess b := by
  simp only [excess, List.count_append, Int.natCast_add]
  omega

theorem excess_openParen_cons (tokens : List String) :
    excess (openParen :: tokens) = 1 + excess tokens := by
  have hclose : (openParen :: tokens).count closeParen = tokens.count closeParen :=
    List.count_cons_of_ne (by decide)
  rw [excess, excess, List.count_cons_self, hclose]
  omega

theorem excess_closeParen_cons (tokens : List String) :
    excess (closeParen :: tokens) = -1 + excess tokens := by
  have hopen : (closeParen :: tokens).count openParen = tokens.count openParen :=
    List.count_cons_of_ne (by decide)
  rw [excess, excess, List.count_cons_self, hopen]
  omega

/-- Other tokens do not count. -/
theorem excess_cons_of_ne (hopen : t ≠ openParen) (hclose : t ≠ closeParen)
    (tokens : List String) : excess (t :: tokens) = excess tokens := by
  rw [excess, excess, List.count_cons_of_ne hopen, List.count_cons_of_ne hclose]

/-- A property of all prefixes of a list holds of the empty one, and of those that start with the
first item. -/
theorem forall_prefix_cons_iff {P : List String → Prop} :
    (∀ p, p <+: t :: tokens → P p) ↔ P [] ∧ ∀ p, p <+: tokens → P (t :: p) := by
  simp only [List.prefix_cons_iff]
  constructor
  · exact fun h => ⟨h [] (.inl rfl), fun p hp => h _ (.inr ⟨p, rfl, hp⟩)⟩
  · rintro ⟨hnil, hcons⟩ p (rfl | ⟨p, rfl, hp⟩)
    · exact hnil
    · exact hcons p hp

/-- **What a scan finds is at most a number** if the deepest level so far is, and the level behind
every prefix. The level at the start is never above the deepest one. -/
theorem nestingFrom_le_iff (h : level ≤ deepest) : nestingFrom level deepest tokens ≤ n ↔
    deepest ≤ n ∧ ∀ p, p <+: tokens → level + excess p ≤ n := by
  induction tokens generalizing level deepest with
  | nil =>
    simp only [nestingFrom, List.prefix_nil, forall_eq, excess_nil]
    omega
  | cons t rest ih =>
    rw [nestingFrom, forall_prefix_cons_iff, excess_nil]
    by_cases hopen : t = openParen
    · subst hopen
      simp only [if_true, excess_openParen_cons, ← Int.add_assoc]
      rw [ih (le_max_right _ _)]
      -- The new level is that behind the first token, and so among those of the prefixes.
      constructor
      · rintro ⟨hdeepest, hall⟩
        exact ⟨by omega, by omega, hall⟩
      · rintro ⟨hdeepest, -, hall⟩
        have hfirst := hall [] List.nil_prefix
        rw [excess_nil] at hfirst
        exact ⟨by omega, hall⟩
    · have hstart : deepest ≤ n → level + 0 ≤ n := by omega
      rw [if_neg hopen]
      by_cases hclose : t = closeParen
      · subst hclose
        simp only [if_true, excess_closeParen_cons, ← Int.add_assoc]
        rw [ih (by omega)]
        exact and_congr_right fun hdeepest => (and_iff_right (hstart hdeepest)).symm
      · simp only [if_neg hclose, excess_cons_of_ne hopen hclose]
        rw [ih h]
        exact and_congr_right fun hdeepest => (and_iff_right (hstart hdeepest)).symm

/-- **What a scan finds** is the deepest level so far, or the level behind a prefix. -/
theorem nestingFrom_mem (level deepest : Int) (tokens : List String) :
    nestingFrom level deepest tokens = deepest ∨
      ∃ p, p <+: tokens ∧ nestingFrom level deepest tokens = level + excess p := by
  induction tokens generalizing level deepest with
  | nil => exact .inl rfl
  | cons t rest ih =>
    rw [nestingFrom]
    by_cases hopen : t = openParen
    · subst hopen
      rw [if_pos rfl]
      rcases ih (level + 1) (max deepest (level + 1)) with hdeepest | ⟨p, hp, hlevel⟩
      · rw [hdeepest]
        rcases max_choice deepest (level + 1) with hold | hnew
        · exact .inl hold
        · exact .inr ⟨[openParen], by simp, hnew⟩
      · exact .inr ⟨openParen :: p, by simpa using hp, by rw [hlevel, excess_openParen_cons]; omega⟩
    · rw [if_neg hopen]
      by_cases hclose : t = closeParen
      · subst hclose
        rw [if_pos rfl]
        rcases ih (level - 1) deepest with hdeepest | ⟨p, hp, hlevel⟩
        · exact .inl hdeepest
        · refine .inr ⟨closeParen :: p, by simpa using hp, ?_⟩
          rw [hlevel, excess_closeParen_cons]
          omega
      · rw [if_neg hclose]
        rcases ih level deepest with hdeepest | ⟨p, hp, hlevel⟩
        · exact .inl hdeepest
        · refine .inr ⟨t :: p, by simpa using hp, ?_⟩
          rw [hlevel, excess_cons_of_ne hopen hclose]

theorem nestingDepth_le_iff : nestingDepth tokens ≤ n ↔ ∀ p, p <+: tokens → excess p ≤ n := by
  rw [nestingDepth, nestingFrom_le_iff le_rfl]
  simp only [Int.zero_add]
  -- The empty prefix has no excess.
  exact and_iff_right_of_imp fun hall => hall [] List.nil_prefix

theorem exists_prefix_excess_eq (tokens : List String) :
    ∃ p, p <+: tokens ∧ excess p = nestingDepth tokens := by
  rcases nestingFrom_mem 0 0 tokens with hzero | ⟨p, hp, hlevel⟩
  · exact ⟨[], List.nil_prefix, hzero.symm⟩
  · exact ⟨p, hp, by rw [nestingDepth, hlevel, Int.zero_add]⟩

/-- A prefix of two lists together is one of the first list, or the first list and a prefix of the
second one. -/
theorem forall_prefix_append_iff {P : List String → Prop} :
    (∀ p, p <+: a ++ b → P p) ↔ (∀ p, p <+: a → P p) ∧ ∀ p, p <+: b → P (a ++ p) := by
  constructor
  · exact fun h => ⟨fun p hp => h p (hp.trans (List.prefix_append a b)),
      fun p hp => h _ ((List.prefix_append_right_inj a).2 hp)⟩
  · rintro ⟨hfirst, hsecond⟩ p hp
    rcases Nat.le_total p.length a.length with hle | hle
    · exact hfirst p (List.prefix_of_prefix_length_le hp (List.prefix_append a b) hle)
    · obtain ⟨q, rfl⟩ := List.prefix_of_prefix_length_le (List.prefix_append a b) hp hle
      exact hsecond q ((List.prefix_append_right_inj a).1 hp)

/-- **The deepest nesting is the greatest excess of open parentheses over closed ones** among the
prefixes of the tokens, the empty one included. So behind other tokens it starts from their
excess. -/
theorem nestingDepth_is_greatest_excess :
    (∀ tokens, IsGreatest { n | ∃ p, p <+: tokens ∧
      (p.count openParen : Int) - p.count closeParen = n } (nestingDepth tokens)) ∧
    ∀ a b, nestingDepth (a ++ b) = max (nestingDepth a)
      ((a.count openParen : Int) - a.count closeParen + nestingDepth b) := by
  refine ⟨fun tokens => ⟨exists_prefix_excess_eq tokens, ?_⟩, fun a b => ?_⟩
  · rintro n ⟨p, hp, rfl⟩
    exact nestingDepth_le_iff.1 le_rfl p hp
  · show nestingDepth (a ++ b) = max (nestingDepth a) (excess a + nestingDepth b)
    refine eq_of_forall_ge_iff fun n => ?_
    have hmoved : ∀ k, excess a + k ≤ n ↔ k ≤ n - excess a := fun k => by omega
    rw [max_le_iff, hmoved, nestingDepth_le_iff, nestingDepth_le_iff, nestingDepth_le_iff,
      forall_prefix_append_iff]
    simp only [excess_append, hmoved]

/-- Tokens that close more than they open have no depth, but they lower that of what follows. -/
example : nestingDepth [")", ")", "(", "(", "("] = 1 := by decide

end GrammarSuite.Token
