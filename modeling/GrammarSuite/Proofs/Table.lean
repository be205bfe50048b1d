import GrammarSuite.Table
import Mathlib.Data.List.Nodup

/-!
# What is in a table

A table in which no key occurs twice is known from its entries. A value that is written takes the
place of another one of the same key, so that of values that are written one after the other the
last one of a key remains.

## Main results

* `get?_eq_some_iff`: the value of a key, in a table without repeated keys
* `get?_merge`: the value of a key after other values have been written
* `get?_ofPairs_of_unique`: pairs in which the value of a key is unique
* `nodup_keys_merge`: no key is repeated by writing values
* `merge_eq_self`: a table that is written over values of its first keys
-/

namespace GrammarSuite.Table

variable {κ α : Type} [DecidableEq κ] {table base updates : Table κ α} {k key : κ} {v value : α}

/-! ## Entries -/

theorem mem_of_get? (h : get? k table = some v) : (k, v) ∈ table := by
  induction table with
  | nil => cases h
  | cons entry rest ih =>
    obtain ⟨k', w⟩ := entry
    rw [get?_cons] at h
    split at h
    · rename_i hk
      rw [← hk, ← Option.some.inj h]
      exact List.mem_cons_self
    · exact List.mem_cons_of_mem _ (ih h)

theorem get?_eq_none_iff : get? k table = none ↔ ∀ v, (k, v) ∉ table := by
  induction table with
  | nil => simp
  | cons entry rest ih =>
    obtain ⟨k', w⟩ := entry
    by_cases hk : k' = k
    · subst hk
      simp only [get?_cons, if_true, List.mem_cons, reduceCtorEq, false_iff, not_forall, not_not]
      exact ⟨w, .inl rfl⟩
    · simp [get?_cons, hk, ih, Ne.symm hk]

/-- The value of a key that has one value only. -/
theorem get?_of_unique (hmem : (k, v) ∈ table) (hunique : ∀ w, (k, w) ∈ table → w = v) :
    get? k table = some v := by
  rcases hget : get? k table with _ | w
  · exact absurd hmem (get?_eq_none_iff.1 hget v)
  · rw [hunique w (mem_of_get? hget)]

/-- **The value of a key**, where no key is repeated. -/
theorem get?_eq_some_iff (h : (keys table).Nodup) : get? k table = some v ↔ (k, v) ∈ table := by
  refine ⟨mem_of_get?, fun hmem => get?_of_unique hmem fun w hw => ?_⟩
  exact congrArg Prod.snd (List.inj_on_of_nodup_map h hw hmem rfl)

/-- A key that is not there is erased by doing nothing. -/
theorem erase_eq_self (h : get? key table = none) : erase key table = table := by
  refine List.filter_eq_self.2 fun entry hmem => ?_
  have hne : entry.1 ≠ key := fun heq => get?_eq_none_iff.1 h entry.2 (heq ▸ hmem)
  simpa using hne

/-! ## Written values -/

theorem mem_insert {entry : κ × α} (h : entry ∈ insert key value table) :
    entry = (key, value) ∨ entry ∈ table := by
  induction table with
  | nil => exact .inl (List.mem_singleton.1 h)
  | cons first rest ih =>
    obtain ⟨k', w⟩ := first
    rw [insert_cons] at h
    split at h
    · rename_i hk
      rcases List.mem_cons.1 h with rfl | hmem
      · exact .inl (by rw [hk])
      · exact .inr (List.mem_cons_of_mem _ hmem)
    · rcases List.mem_cons.1 h with rfl | hmem
      · exact .inr List.mem_cons_self
      · exact (ih hmem).imp_right (List.mem_cons_of_mem _)

theorem mem_merge {entry : κ × α} (h : entry ∈ merge base updates) :
    entry ∈ base ∨ entry ∈ updates := by
  induction updates generalizing base with
  | nil => exact .inl h
  | cons first rest ih =>
    rcases ih h with hbase | hrest
    · rcases mem_insert hbase with rfl | hmem
      · exact .inr List.mem_cons_self
      · exact .inl hmem
    · exact .inr (List.mem_cons_of_mem _ hrest)

theorem insert_ne_nil : insert key value table ≠ [] := by
  cases table with
  | nil => exact List.cons_ne_nil _ _
  | cons entry rest =>
    rw [insert_cons]
    split <;> exact List.cons_ne_nil _ _

theorem merge_ne_nil (h : base ≠ []) : merge base updates ≠ [] := by
  induction updates generalizing base with
  | nil => exact h
  | cons first rest ih => exact ih insert_ne_nil

theorem ofPairs_ne_nil (h : updates ≠ []) : ofPairs updates ≠ [] := by
  obtain ⟨⟨k, v⟩, rest, rfl⟩ := List.exists_cons_of_ne_nil h
  show merge (insert k v []) rest ≠ []
  exact merge_ne_nil insert_ne_nil

theorem mem_ofPairs {entry : κ × α} (h : entry ∈ ofPairs updates) : entry ∈ updates :=
  (mem_merge h).resolve_left List.not_mem_nil

theorem nodup_keys_insert (h : (keys table).Nodup) : (keys (insert key value table)).Nodup := by
  rw [keys_insert]
  split
  · exact h
  · rename_i hkey
    exact h.append (List.nodup_singleton key) (List.disjoint_singleton.2 hkey)

/-- No key is repeated by writing values. -/
theorem nodup_keys_merge (h : (keys base).Nodup) (updates : Table κ α) :
    (keys (merge base updates)).Nodup := by
  induction updates generalizing base with
  | nil => exact h
  | cons first rest ih => exact ih (nodup_keys_insert h)

theorem nodup_keys_ofPairs (pairs : List (κ × α)) : (keys (ofPairs pairs)).Nodup :=
  @nodup_keys_merge _ _ _ [] List.nodup_nil pairs

/-- **The value of a key after other values have been written**: the last one of this key counts. -/
theorem get?_merge (k : κ) (base updates : Table κ α) :
    get? k (merge base updates) = (get? k updates.reverse).or (get? k base) := by
  induction updates generalizing base with
  | nil => simp [merge]
  | cons first rest ih =>
    obtain ⟨key, value⟩ := first
    have hstep : merge base ((key, value) :: rest) = merge (insert key value base) rest := rfl
    have hlast : ∀ l : Table κ α, get? k (l ++ [(key, value)]) =
        (get? k l).or (if key = k then some value else none) := by
      intro l
      induction l with
      | nil => simp [get?_cons]
      | cons e l ihl =>
        obtain ⟨k', w⟩ := e
        by_cases he : k' = k <;> simp [get?_cons, he, ihl]
    rw [hstep, ih, List.reverse_cons, hlast]
    by_cases hk : key = k
    · subst hk
      simp
    · rw [get?_insert_of_ne _ _ (Ne.symm hk), if_neg hk, Option.or_none]

theorem get?_ofPairs_of_unique {pairs : List (κ × α)} (hmem : (k, v) ∈ pairs)
    (hunique : ∀ w, (k, w) ∈ pairs → w = v) : get? k (ofPairs pairs) = some v := by
  have hreverse : get? k pairs.reverse = some v :=
    get?_of_unique (List.mem_reverse.2 hmem) fun w hw => hunique w (List.mem_reverse.1 hw)
  rw [ofPairs, get?_merge, hreverse, Option.some_or]

theorem get?_ofPairs_eq_none {pairs : List (κ × α)} (h : ∀ v, (k, v) ∉ pairs) :
    get? k (ofPairs pairs) = none :=
  get?_eq_none_iff.2 fun v hv => h v (mem_ofPairs hv)

/-- The value of a key after values of different keys have been written. -/
theorem get?_merge_of_nodup (k : κ) (base : Table κ α) (h : (keys updates).Nodup) :
    get? k (merge base updates) = (get? k updates).or (get? k base) := by
  rw [get?_merge]
  congr 1
  rcases hget : get? k updates with _ | v
  · exact get?_eq_none_iff.2 fun v hv => get?_eq_none_iff.1 hget v (List.mem_reverse.1 hv)
  · refine get?_of_unique (List.mem_reverse.2 (mem_of_get? hget)) fun w hw => ?_
    have hw := (get?_eq_some_iff h).2 (List.mem_reverse.1 hw)
    exact Option.some.inj (hw.symm.trans hget)

/-! ## Values that are there already -/

/-- Writing the value of a key again changes nothing. -/
theorem insert_eq_self (h : get? key table = some value) : insert key value table = table := by
  induction table with
  | nil => cases h
  | cons entry rest ih =>
    obtain ⟨k, w⟩ := entry
    rw [get?_cons] at h
    rw [insert_cons]
    split at h
    · rename_i hk
      rw [if_pos hk, Option.some.inj h]
    · rename_i hk
      rw [if_neg hk, ih h]

/-- The first entry stays in front while values of other keys are written. -/
theorem merge_cons (h : k ∉ keys updates) :
    merge ((k, v) :: base) updates = (k, v) :: merge base updates := by
  induction updates generalizing base with
  | nil => rfl
  | cons first rest ih =>
    obtain ⟨key, w⟩ := first
    obtain ⟨hne, hrest⟩ := not_or.1 (mt List.mem_cons.2 h)
    have hinsert : insert key w ((k, v) :: base) = (k, v) :: insert key w base := if_neg hne
    show merge (insert key w ((k, v) :: base)) rest = _
    rw [hinsert, ih hrest]
    rfl

/-- **Writing a table over values of its first keys gives the table.** -/
theorem merge_eq_self (h : keys base <+: keys table) (hnodup : (keys table).Nodup) :
    merge base table = table := by
  induction table generalizing base with
  | nil =>
    obtain rfl : base = [] := List.map_eq_nil_iff.1 (List.prefix_nil.1 h)
    rfl
  | cons entry rest ih =>
    obtain ⟨k, v⟩ := entry
    obtain ⟨hk, hrest⟩ := List.nodup_cons.1 hnodup
    cases base with
    | nil =>
      have hnil : merge [] rest = rest := ih List.nil_prefix hrest
      show merge [(k, v)] rest = _
      rw [merge_cons hk, hnil]
    | cons first base =>
      obtain ⟨rfl, hbase⟩ := List.cons_prefix_cons.1 h
      have hinsert : insert first.1 v (first :: base) = (first.1, v) :: base := if_pos rfl
      show merge (insert first.1 v (first :: base)) rest = _
      rw [hinsert, merge_cons hk, ih hbase hrest]

theorem ofPairs_eq_self (h : (keys table).Nodup) : ofPairs table = table :=
  show merge [] table = table from merge_eq_self List.nil_prefix h

/-- Keys that come first stay first when a value is written. -/
theorem prefix_keys_insert (h : keys base <+: keys table) :
    keys base <+: keys (insert key value table) := by
  rw [keys_insert]
  split
  · exact h
  · exact h.trans (List.prefix_append _ _)

theorem prefix_keys_merge (h : keys base <+: keys table) (updates : Table κ α) :
    keys base <+: keys (merge table updates) := by
  induction updates generalizing table with
  | nil => exact h
  | cons first rest ih => exact ih (prefix_keys_insert h)

end GrammarSuite.Table
