import GrammarSuite.Proofs.FileTree.Places
import Mathlib.Data.List.Chain

/-!
# The home directory in paths

The home directory is put in for a leading tilde, in front of a slash or of the end of the path. The
slash makes no pair with a half, so what is spelled stays spelled, and no pairs come up. Unless the
home directory starts with a tilde itself, there is none left.

## Main results

* `isSpelled_expandHome`, `isJoined_expandHome`: paths that are spelled, or have no pairs to join
* `expandHome_expandHome`: the home directory is put in once
-/

namespace GrammarSuite

namespace Text

theorem isSpelled_slash_iff {s rest : List Char} :
    IsSpelled (s ++ '/' :: rest) ↔ IsSpelled s ∧ IsSpelled rest := by
  constructor
  · intro h
    exact h.split (by decide)
  · rintro ⟨hs, hrest⟩
    exact hs.append ((isSpelled_cons (by decide)).2 hrest)

theorem isUnpaired_slash_iff {s : List Char} (hs : IsSpelled s) (rest : List Char) :
    IsUnpaired (pointsOf (s ++ '/' :: rest)) ↔
      IsUnpaired (pointsOf s) ∧ IsUnpaired (pointsOf rest) := by
  have hslash : '/'.toNat = 47 := rfl
  have hfirst : isFirst 47 = false := by decide
  have hsecond : isSecond 47 = false := by decide
  rw [pointsOf_append hs, pointsOf_cons (by decide), hslash, IsUnpaired, List.isChain_append,
    List.isChain_cons]
  simp [hfirst, hsecond, IsUnpaired]

end Text

namespace Path

section

/-! ## What holds between slashes -/

variable {P : List Char → Prop} (hsplit : ∀ s rest, P (s ++ '/' :: rest) ↔ P s ∧ P rest)
  {home path : String}

include hsplit

theorem of_dropSlashes {s : List Char} (h : P s) : P (dropSlashes s) := by
  obtain ⟨slashes, hs, hall⟩ := exists_slashes s
  cases slashes with
  | nil =>
    rw [List.append_nil] at hs
    rwa [← hs]
  | cons c slashes =>
    rw [List.all_cons, Bool.and_eq_true, beq_iff_eq] at hall
    rw [hs, hall.1] at h
    exact ((hsplit _ _).1 h).1

/-- What holds of a text exactly if it holds of what stands between its slashes holds of a path
with the home directory. -/
theorem of_expandHome (hhome : P home.toList) (hpath : P path.toList) :
    P (expandHome home path).toList := by
  have hbare : P (dropSlashes home.toList) := of_dropSlashes hsplit hhome
  unfold expandHome
  split
  · split
    · -- Only slashes are in the home directory, so that nothing stands between them.
      rename_i hall
      have hnil : P [] := by
        rcases hchars : home.toList with _ | ⟨c, slashes⟩ <;> rw [hchars] at hhome hall
        · exact hhome
        · rw [List.all_cons, Bool.and_eq_true, beq_iff_eq] at hall
          rw [hall.1] at hhome
          exact ((hsplit [] slashes).1 hhome).1
      exact (hsplit [] []).2 ⟨hnil, hnil⟩
    · rwa [String.toList_ofList]
  · rename_i rest hchars
    rw [hchars] at hpath
    rw [String.toList_ofList]
    exact (hsplit _ _).2 ⟨hbare, ((hsplit ['~'] rest).1 hpath).2⟩
  · exact hpath

end

variable {home path : String}

theorem isSpelled_expandHome (hhome : Text.IsSpelled home.toList)
    (hpath : Text.IsSpelled path.toList) : Text.IsSpelled (expandHome home path).toList :=
  of_expandHome (fun _ _ => Text.isSpelled_slash_iff) hhome hpath

/-- **No pairs come up in a path** when the home directory is put in. -/
theorem isJoined_expandHome (hhome : Text.IsJoined home) (hpath : Text.IsJoined path) :
    Text.IsJoined (expandHome home path) := by
  rw [Text.isJoined_iff] at hhome hpath ⊢
  refine of_expandHome (P := fun s => Text.IsSpelled s ∧ Text.IsUnpaired (Text.pointsOf s))
    (fun s rest => ?_) hhome hpath
  constructor
  · rintro ⟨hspelled, hunpaired⟩
    obtain ⟨hs, hrest⟩ := Text.isSpelled_slash_iff.1 hspelled
    obtain ⟨hs', hrest'⟩ := (Text.isUnpaired_slash_iff hs rest).1 hunpaired
    exact ⟨⟨hs, hs'⟩, hrest, hrest'⟩
  · rintro ⟨⟨hs, hs'⟩, hrest, hrest'⟩
    refine ⟨Text.isSpelled_slash_iff.2 ⟨hs, hrest⟩, ?_⟩
    exact (Text.isUnpaired_slash_iff hs rest).2 ⟨hs', hrest'⟩

/-- A path below another one is spelled if both are. -/
theorem isSpelled_join {name : String} (hpath : Text.IsSpelled path.toList)
    (hname : Text.IsSpelled name.toList) : Text.IsSpelled (join path name).toList := by
  have hslash : Text.IsSpelled "/".toList := (by decide : Text.IsAscii "/").isSpelled
  unfold join
  split
  · exact hname
  · split
    · rw [String.toList_append]
      exact hpath.append hname
    · rw [String.toList_append, String.toList_append]
      exact (hpath.append hslash).append hname

/-! ## Putting in the home directory again -/

theorem expandHome_of_head (h : path.toList.head? ≠ some '~') : expandHome home path = path := by
  unfold expandHome
  split
  · rename_i hchars
    rw [hchars] at h
    exact absurd rfl h
  · rename_i hchars
    rw [hchars] at h
    exact absurd rfl h
  · rfl

/-- **The home directory is put in once**, if it does not start with a tilde. -/
theorem expandHome_expandHome (hhome : home.toList.head? ≠ some '~') (path : String) :
    expandHome home (expandHome home path) = expandHome home path := by
  have hbare : ∀ rest : List Char, rest.head? ≠ some '~' →
      (dropSlashes home.toList ++ rest).head? ≠ some '~' := by
    intro rest hrest
    obtain ⟨slashes, hs, -⟩ := exists_slashes home.toList
    rcases hdrop : dropSlashes home.toList with _ | ⟨c, bare⟩
    · exact hrest
    · rw [hs, hdrop] at hhome
      exact hhome
  -- A path that is left as it is need not be looked at again.
  have hcases : expandHome home path = path ∨ (expandHome home path).toList.head? ≠ some '~' := by
    unfold expandHome
    split
    · refine .inr ?_
      split
      · decide
      · rw [String.toList_ofList]
        have hhead := hbare [] (by simp)
        rwa [List.append_nil] at hhead
    · rw [String.toList_ofList]
      exact .inr (hbare _ (by simp))
    · exact .inl rfl
  rcases hcases with heq | hhead
  · rw [heq, heq]
  · exact expandHome_of_head hhead

end Path

end GrammarSuite
