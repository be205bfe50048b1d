import GrammarSuite.Sorting
import Mathlib.Data.List.Chain

/-!
# Short lists in order

A list of fewer than 64 values is a single run, so it is sorted without any merging: its values go
on in one direction as long as they do, and each of the others is put where it belongs. By a
comparison of keys they come in the order of their keys, and values with the same key stay in
theirs. A descending run is turned around, which keeps the order of values with the same key because
it has none.

## Main definitions

* `Sorting.Compares`: a comparison of keys
* `Sorting.Arranges`: a list in the order of its keys, in which equal keys stay in order

## Main results

* `Sorting.Arranges.reverse`: an arranged list turned around
* `Sorting.insert_arranges`, `Sorting.foldlM_insert_arranges`: values put where they belong
* `Sorting.firstRun_arranges`: a list that is a single run
* `Sorting.sort_arranges`: a short list sorted
-/

namespace GrammarSuite.Sorting

variable {α ε : Type} {key : α → Int} {less : α → α → Except ε Bool} {xs ys vs : List α} {v : α}

/-- A comparison that compares the keys of the values of a list. -/
def Compares (less : α → α → Except ε Bool) (key : α → Int) (xs : List α) : Prop :=
  ∀ a ∈ xs, ∀ b ∈ xs, less a b = .ok (decide (key a < key b))

/-- A list in the order of its keys. Values with the same key are those of the other list, in the
same order. -/
structure Arranges (key : α → Int) (xs ys : List α) : Prop where
  ordered : ys.Pairwise fun a b => key a ≤ key b
  stable : ∀ k, ys.filter (key · = k) = xs.filter (key · = k)

theorem Compares.mono (h : Compares less key ys) (hsubset : xs ⊆ ys) : Compares less key xs :=
  fun a ha b hb => h a (hsubset ha) b (hsubset hb)

theorem Arranges.mem_iff {a : α} (h : Arranges key xs ys) : a ∈ ys ↔ a ∈ xs := by
  have hclass := congrArg (a ∈ ·) (h.stable (key a))
  simpa using hclass

/-- Values with the same key are in the order that they were in. -/
theorem Arranges.pairwise_of_key_eq {S : α → α → Prop} (h : Arranges key xs ys)
    (hxs : xs.Pairwise S) : ys.Pairwise fun a b => key a = key b → S a b := by
  refine List.pairwise_iff_forall_sublist.2 fun {a b} hab hkey => ?_
  have hclass : (ys.filter (key · = key a)).Pairwise S := by
    rw [h.stable]
    exact hxs.filter _
  have hsublist := hab.filter (key · = key a)
  exact hclass.forall_sublist (by simpa [hkey] using hsublist)

/-- Turned around, a list is in the order of the opposite keys. -/
theorem Arranges.reverse (h : Arranges key xs.reverse ys) :
    Arranges (fun a => -key a) xs ys.reverse := by
  refine ⟨List.pairwise_reverse.2 (h.ordered.imp fun hab => by omega), fun k => ?_⟩
  have hclass := congrArg List.reverse (h.stable (-k))
  rw [← List.filter_reverse, ← List.filter_reverse, List.reverse_reverse] at hclass
  have hkey : ∀ a, -key a = k ↔ key a = -k := fun a => by omega
  simpa only [hkey] using hclass

/-- What has arranged images is arranged by the keys of these, if no two have the same image. -/
theorem Arranges.of_map {β : Type} {g : β → α} {xs ys : List β} (hg : Function.Injective g)
    (h : Arranges key (xs.map g) (ys.map g)) : Arranges (fun b => key (g b)) xs ys := by
  have hordered := List.pairwise_map.1 h.ordered
  refine ⟨hordered, fun k => List.map_injective_iff.2 hg ?_⟩
  have hclass := h.stable k
  rwa [List.filter_map, List.filter_map] at hclass

/-! ## Values put where they belong -/

/-- A position is found where a test holds in front of it, and not behind it. -/
theorem halve_eq {test : α → Except ε Bool} {first : Bool} (hxs : ∀ x ∈ xs, test x = .ok true)
    (hys : ∀ y ∈ ys, test y = .ok false) {low high : Nat} (hlow : low ≤ xs.length)
    (hhigh : xs.length ≤ high) (hend : high ≤ (xs ++ ys).length) :
    halve test first (xs ++ ys) low high = .ok xs.length := by
  induction hn : high - low using Nat.strongRecOn generalizing low high with
  | ind n ih =>
    subst hn
    rw [halve]
    split
    · rename_i hlt
      dsimp only
      have hfirst := Bool.toNat_le first
      generalize hm : low + (high - low - first.toNat) / 2 = middle
      have hmiddle : low ≤ middle ∧ middle < high := by omega
      -- The value in the middle stands on one side of the position.
      by_cases hside : middle < xs.length
      · rw [List.getElem?_append_left hside, List.getElem?_eq_getElem hside]
        dsimp only
        rw [hxs _ (List.getElem_mem hside)]
        exact ih _ (by omega) (by omega) hhigh hend rfl
      · have hinside : middle - xs.length < ys.length := by
          rw [List.length_append] at hend
          omega
        rw [List.getElem?_append_right (by omega), List.getElem?_eq_getElem hinside]
        dsimp only
        rw [hys _ (List.getElem_mem hinside)]
        exact ih _ (by omega) hlow (by omega) (by omega) rfl
    · congr 1
      omega

/-- Values in order are cut behind those whose keys are not greater than a number. -/
theorem exists_cut (k : Int) (h : xs.Pairwise fun a b => key a ≤ key b) :
    ∃ front back, xs = front ++ back ∧ (∀ a ∈ front, key a ≤ k) ∧ ∀ b ∈ back, k < key b := by
  induction xs with
  | nil => exact ⟨[], [], rfl, by simp, by simp⟩
  | cons x xs ih =>
    obtain ⟨hx, hxs⟩ := List.pairwise_cons.1 h
    by_cases hle : key x ≤ k
    · obtain ⟨front, back, rfl, hfront, hback⟩ := ih hxs
      exact ⟨x :: front, back, rfl, List.forall_mem_cons.2 ⟨hle, hfront⟩, hback⟩
    · refine ⟨[], x :: xs, rfl, by simp, List.forall_mem_cons.2 ⟨by omega, fun b hb => ?_⟩⟩
      have hxb := hx b hb
      omega

/-- **A value is put behind those whose keys are not greater.** -/
theorem insert_arranges (hless : Compares less key (v :: xs))
    (hxs : xs.Pairwise fun a b => key a ≤ key b) :
    ∃ ys, insert less xs v = .ok ys ∧ Arranges key (xs ++ [v]) ys := by
  obtain ⟨front, back, rfl, hfront, hback⟩ := exists_cut (key v) hxs
  have htest : ∀ x ∈ front ++ back,
      negated (less v) x = .ok (!decide (key v < key x)) := fun x hx => by
    rw [negated, hless v List.mem_cons_self x (List.mem_cons_of_mem v hx)]
    rfl
  have hposition : halve (negated (less v)) false (front ++ back) 0 (front ++ back).length =
      .ok front.length := by
    refine halve_eq (fun x hx => ?_) (fun x hx => ?_) (Nat.zero_le _) (by simp)
      (Nat.le_refl _)
    · rw [htest x (List.mem_append_left _ hx)]
      simpa using hfront x hx
    · rw [htest x (List.mem_append_right _ hx)]
      simpa using hback x hx
  refine ⟨front ++ v :: back, ?_, ?_, fun k => ?_⟩
  · rw [insert, hposition]
    show Except.ok _ = _
    rw [List.take_left, List.drop_left]
  · obtain ⟨hfrontOrdered, hbackOrdered, hacross⟩ := List.pairwise_append.1 hxs
    refine List.pairwise_append.2 ⟨hfrontOrdered, List.pairwise_cons.2 ⟨fun b hb => ?_,
      hbackOrdered⟩, fun a ha b hb => ?_⟩
    · exact Int.le_of_lt (hback b hb)
    · rcases List.mem_cons.1 hb with rfl | hb
      · exact hfront a ha
      · exact hacross a ha b hb
  · -- Behind the value there are no equal keys, so it stays the last one of its key.
    simp only [List.filter_append, List.filter_cons, List.filter_nil, List.append_assoc]
    split
    · rename_i hk
      have hnone : back.filter (key · = k) = [] := by
        refine List.filter_eq_nil_iff.2 fun b hb => ?_
        have hlt := hback b hb
        simp only [decide_eq_true_eq] at hk ⊢
        omega
      rw [hnone, List.nil_append]
    · rw [List.append_nil]

/-- **Several values are put where they belong.** -/
theorem foldlM_insert_arranges (hless : Compares less key (xs ++ vs)) (h : Arranges key xs ys) :
    ∃ zs, vs.foldlM (insert less) ys = .ok zs ∧ Arranges key (xs ++ vs) zs := by
  induction vs generalizing xs ys with
  | nil => exact ⟨ys, rfl, by rwa [List.append_nil]⟩
  | cons v vs ih =>
    have hinserted : Compares less key (v :: ys) := hless.mono fun a ha => by
      rcases List.mem_cons.1 ha with rfl | ha
      · exact List.mem_append_right _ List.mem_cons_self
      · exact List.mem_append_left _ (h.mem_iff.1 ha)
    obtain ⟨zs, hinsert, hzs⟩ := insert_arranges hinserted h.ordered
    have hnext : Arranges key (xs ++ [v]) zs :=
      ⟨hzs.ordered, fun k => by rw [hzs.stable, List.filter_append, List.filter_append, h.stable]⟩
    rw [← List.singleton_append, ← List.append_assoc] at hless ⊢
    obtain ⟨rest, hrest, hall⟩ := ih hless hnext
    refine ⟨rest, ?_, hall⟩
    rw [List.singleton_append, List.foldlM_cons, hinsert]
    exact hrest

/-! ## A single run -/

/-- As many values as are counted go on in one direction. -/
theorem goingOn_eq (descending : Bool) (hless : Compares less key (v :: xs)) :
    ∃ n, goingOn less descending v xs = .ok n ∧
      (v :: xs.take n).IsChain fun a b => decide (key b < key a) = descending := by
  induction xs generalizing v with
  | nil => exact ⟨0, rfl, by simp⟩
  | cons w xs ih =>
    have hw : less w v = .ok (decide (key w < key v)) := hless w (by simp) v (by simp)
    rw [goingOn, hw]
    by_cases hdirection : decide (key w < key v) = descending
    · obtain ⟨n, hn, hchain⟩ := ih (hless.mono (List.subset_cons_self v _))
      refine ⟨n + 1, ?_, ?_⟩
      · show (if _ then _ else _) = _
        rw [if_pos hdirection, hn]
        rfl
      · rw [List.take_succ_cons]
        exact .cons_cons hdirection hchain
    · refine ⟨0, ?_, by simp⟩
      show (if _ then _ else _) = _
      rw [if_neg hdirection]
      rfl

/-- Values that go on in one direction are arranged as they are, or turned around if they
descend. -/
theorem arranges_of_isChain {descending : Bool}
    (h : xs.IsChain fun a b => decide (key b < key a) = descending) :
    Arranges key xs (if descending then xs.reverse else xs) := by
  cases descending with
  | false =>
    have hchain : xs.IsChain fun a b => key a ≤ key b := h.imp fun a b hab => by simpa using hab
    have : Trans (fun a b : α => key a ≤ key b) (fun a b => key a ≤ key b)
        fun a b => key a ≤ key b := ⟨Int.le_trans⟩
    exact ⟨List.isChain_iff_pairwise.1 hchain, fun _ => rfl⟩
  | true =>
    have hchain : xs.IsChain fun a b => key b < key a := h.imp fun a b hab => by simpa using hab
    have : Trans (fun a b : α => key b < key a) (fun a b => key b < key a)
        fun a b => key b < key a := ⟨fun hab hbc => Int.lt_trans hbc hab⟩
    have hordered := List.isChain_iff_pairwise.1 hchain
    refine ⟨List.pairwise_reverse.2 (hordered.imp Int.le_of_lt), fun k => ?_⟩
    -- No key comes twice.
    have hkeys : ∀ a ∈ xs.filter (key · = k), key a = k := fun a ha => by
      simpa using (List.mem_filter.1 ha).2
    rw [if_pos rfl, List.filter_reverse]
    match hclass : xs.filter (key · = k), hkeys, hordered.filter (key · = k) with
    | [], _, _ => rfl
    | [a], _, _ => rfl
    | a :: b :: rest, hkeys, hordered =>
      have hlt := (List.pairwise_cons.1 hordered).1 b List.mem_cons_self
      rw [hkeys a (by simp), hkeys b (by simp)] at hlt
      exact absurd hlt (Int.lt_irrefl k)

/-- **A list that is to be a single run is arranged**, and nothing is left behind it. -/
theorem firstRun_arranges (hless : Compares less key xs) :
    ∃ ys, firstRun less xs.length xs = .ok (ys, []) ∧ Arranges key xs ys := by
  match xs, hless with
  | [], _ => exact ⟨[], rfl, by simp, fun _ => rfl⟩
  | [v], _ => exact ⟨[v], rfl, by simp, fun _ => rfl⟩
  | v :: w :: rest, hless =>
    have hw : less w v = .ok (decide (key w < key v)) := hless w (by simp) v (by simp)
    obtain ⟨n, hn, hchain⟩ :=
      goingOn_eq (decide (key w < key v)) (hless.mono (List.subset_cons_self v _))
    have hstart : ((v :: w :: rest).take (2 + n)).IsChain
        fun a b => decide (key b < key a) = decide (key w < key v) := by
      rw [Nat.add_comm, List.take_succ_cons, List.take_succ_cons]
      exact .cons_cons rfl hchain
    have hparts := List.take_append_drop (2 + n) (v :: w :: rest)
    have hall : ((v :: w :: rest).drop (2 + n)).take ((v :: w :: rest).length - (2 + n)) =
        (v :: w :: rest).drop (2 + n) := List.take_of_length_le (by rw [List.length_drop])
    obtain ⟨ys, hys, harranges⟩ :=
      foldlM_insert_arranges (by rwa [hparts]) (arranges_of_isChain hstart)
    rw [hparts] at harranges
    refine ⟨ys, ?_, harranges⟩
    rw [firstRun, hw]
    show (goingOn less (decide (key w < key v)) w rest >>= _) = _
    rw [hn]
    show (((v :: w :: rest).drop (2 + n)).take ((v :: w :: rest).length - (2 + n))).foldlM
      (insert less) _ >>= _ = _
    rw [hall, hys]
    show Except.ok (ys, _) = _
    rw [List.drop_drop, List.drop_of_length_le (by omega)]

/-- **A short list is sorted** by a comparison of keys, and equal keys stay in order. -/
theorem sort_arranges (hshort : xs.length < 64) (hless : Compares less key xs) :
    ∃ ys, sort less xs = .ok ys ∧ Arranges key xs ys := by
  obtain ⟨ys, hrun, harranges⟩ := firstRun_arranges hless
  refine ⟨ys, ?_, harranges⟩
  cases xs with
  | nil =>
    obtain rfl : ys = [] := List.eq_nil_iff_forall_not_mem.2 fun a ha => by
      simpa using harranges.mem_iff.1 ha
    rfl
  | cons x xs =>
    have hleast : leastRun (x :: xs).length false = (x :: xs).length := by
      rw [leastRun, if_neg (by omega)]
      rfl
    have hcollect : collect less (x :: xs).length (x :: xs).length 0 {} (x :: xs) =
        .ok { runs := [{ start := 0, values := ys }] } := by
      rw [List.length_cons, collect, if_neg (by simp), ← List.length_cons (a := x), hleast, hrun]
      show collect less _ xs.length _ _ [] = _
      cases xs.length <;> rfl
    rw [sort, hcollect]
    rfl

end GrammarSuite.Sorting
