import GrammarSuite.Proofs.Text.Lines

/-!
# Lines between line feeds

A text is cut into lines at its line feeds alone. Of lines that were joined, those without a line
feed are found again, whatever stands in front of them. So what comes behind the last line of a
given wording is known from the end of a text.

## Main definitions

* `Text.feedLines`: the lines of a text between its line feeds
* `Text.OnOneLine`: a text without a line feed
* `Text.behindLast`: the lines behind the last one of a wording

## Main results

* `Text.feedLines_unlines_append`: joined lines are cut again, from the first one without a line
  feed on
* `Text.behindLast_feedLines_unlines`: what stands behind a line that does not come again
-/

namespace GrammarSuite.Text

variable {l : String} {ls before behind : List String}

/-- A text without a line feed. -/
def OnOneLine (s : String) : Prop := '\n' ∉ s.toList

instance (s : String) : Decidable (OnOneLine s) := inferInstanceAs (Decidable (_ ∉ _))

@[simp] theorem onOneLine_append {s t : String} :
    OnOneLine (s ++ t) ↔ OnOneLine s ∧ OnOneLine t := by
  simp [OnOneLine, not_or]

/-- The lines of a text between its line feeds. -/
def feedLines (s : String) : List String := (s.toList.splitOn '\n').map String.ofList

theorem feedLines_of_onOneLine {s : String} (h : OnOneLine s) : feedLines s = [s] := by
  rw [feedLines, splitOn_of_not_mem h, List.map_singleton, String.ofList_toList]

/-- A text is cut at a line feed. -/
theorem feedLines_feed (s t : String) :
    feedLines (s ++ "\n" ++ t) = feedLines s ++ feedLines t := by
  have hfeed : "\n".toList = ['\n'] := rfl
  have hsplit : (s.toList ++ '\n' :: t.toList).splitOn '\n' =
      s.toList.splitOn '\n' ++ t.toList.splitOn '\n' :=
    List.splitOnP_append_cons s.toList t.toList (by decide)
  rw [feedLines, String.toList_append, String.toList_append, hfeed, List.append_assoc,
    List.singleton_append, hsplit, List.map_append]
  rfl

theorem unlines_cons (l : String) (hne : ls ≠ []) : unlines (l :: ls) = l ++ "\n" ++ unlines ls := by
  obtain ⟨m, ls, rfl⟩ := List.exists_cons_of_ne_nil hne
  rw [unlines, String.intercalate_cons_cons]
  rfl

theorem feedLines_unlines (hne : ls ≠ []) (h : ∀ l ∈ ls, OnOneLine l) :
    feedLines (unlines ls) = ls := by
  induction ls with
  | nil => exact absurd rfl hne
  | cons l rest ih =>
    obtain ⟨hl, hrest⟩ := List.forall_mem_cons.1 h
    by_cases hnil : rest = []
    · subst hnil
      exact feedLines_of_onOneLine hl
    · rw [unlines_cons l hnil, feedLines_feed, feedLines_of_onOneLine hl, ih hnil hrest]
      rfl

/-- **Joined lines are cut again**, from the first one on behind which none holds a line feed. -/
theorem feedLines_unlines_append (before : List String) (hne : behind ≠ [])
    (h : ∀ l ∈ behind, OnOneLine l) :
    ∃ front, feedLines (unlines (before ++ behind)) = front ++ behind := by
  induction before with
  | nil => exact ⟨[], feedLines_unlines hne h⟩
  | cons l rest ih =>
    obtain ⟨front, hfront⟩ := ih
    refine ⟨feedLines l ++ front, ?_⟩
    rw [List.cons_append, unlines_cons l (by simp [hne]), feedLines_feed, hfront, List.append_assoc]

/-- The lines behind the last one of a wording; all of them if there is none. -/
def behindLast (l : String) (ls : List String) : List String :=
  (ls.reverse.takeWhile (· ≠ l)).reverse

theorem behindLast_append (before : List String) (h : l ∉ behind) :
    behindLast l (before ++ l :: behind) = behind := by
  have hall : ∀ m ∈ behind.reverse, decide (m ≠ l) = true := by
    intro m hm
    simp only [decide_eq_true_eq]
    rintro rfl
    exact h (List.mem_reverse.1 hm)
  rw [behindLast, List.reverse_append, List.reverse_cons, List.append_assoc,
    List.takeWhile_append_of_pos hall, List.singleton_append, List.takeWhile_cons_of_neg (by simp),
    List.append_nil, List.reverse_reverse]

/-- **What stands behind a line that does not come again**, however the lines before it look. -/
theorem behindLast_feedLines_unlines (before : List String) (hl : OnOneLine l)
    (hbehind : ∀ m ∈ behind, OnOneLine m) (h : l ∉ behind) :
    behindLast l (feedLines (unlines (before ++ l :: behind))) = behind := by
  obtain ⟨front, hfront⟩ := feedLines_unlines_append before (List.cons_ne_nil l behind)
    (List.forall_mem_cons.2 ⟨hl, hbehind⟩)
  rw [hfront, behindLast_append front h]

end GrammarSuite.Text
