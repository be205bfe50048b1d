/-!
# Tables

A table from keys to values that keeps the order in which the keys came in. Writing to a key that
is present changes its value and leaves its place; a new key goes to the end.

## Main definitions

* `Table.get?`: the value of a key
* `Table.insert`, `Table.erase`: writes or removes one value
* `Table.merge`: writes the values of another table, in its order
* `Table.keys`: the keys, in order
-/

namespace GrammarSuite

/-- A table from keys to values, in the order of the first writes. -/
abbrev Table (κ α : Type) := List (κ × α)

namespace Table

variable {κ α : Type} [DecidableEq κ]

/-- The value of a key. -/
def get? (key : κ) : Table κ α → Option α
  | [] => none
  | (k, v) :: rest => if k = key then some v else get? key rest

/-- Writes a value: in place if the key is present, at the end if not. -/
def insert (key : κ) (value : α) : Table κ α → Table κ α
  | [] => [(key, value)]
  | (k, v) :: rest => if k = key then (k, value) :: rest else (k, v) :: insert key value rest

/-- Removes a key. -/
def erase (key : κ) (table : Table κ α) : Table κ α := table.filter fun (k, _) => k ≠ key

/-- Writes all values of another table. -/
def merge (base updates : Table κ α) : Table κ α :=
  updates.foldl (fun table (k, v) => insert k v table) base

/-- The keys, in order. -/
def keys (table : Table κ α) : List κ := table.map Prod.fst

/-- A table from pairs that may repeat a key; the last value of a key counts. -/
def ofPairs (pairs : List (κ × α)) : Table κ α := merge [] pairs

section

variable (key k : κ) (value v : α) (rest : Table κ α)

@[simp] theorem get?_nil : get? key ([] : Table κ α) = none := rfl

theorem get?_cons :
    get? key ((k, v) :: rest) = if k = key then some v else get? key rest := rfl

@[simp] theorem insert_nil : insert key value [] = [(key, value)] := rfl

theorem insert_cons :
    insert key value ((k, v) :: rest) =
      if k = key then (k, value) :: rest else (k, v) :: insert key value rest := rfl

end

@[simp] theorem get?_insert_self (key : κ) (value : α) (table : Table κ α) :
    get? key (insert key value table) = some value := by
  induction table with
  | nil => simp [get?_cons]
  | cons entry rest ih =>
    obtain ⟨k, v⟩ := entry
    by_cases h : k = key <;> simp [insert_cons, get?_cons, h, ih]

theorem get?_insert_of_ne {key other : κ} (value : α) (table : Table κ α) (h : other ≠ key) :
    get? other (insert key value table) = get? other table := by
  induction table with
  | nil => simp [get?_cons, Ne.symm h]
  | cons entry rest ih =>
    obtain ⟨k, v⟩ := entry
    by_cases hk : k = key
    · subst hk; simp [insert_cons, get?_cons, Ne.symm h]
    · by_cases ho : k = other
      · subst ho; simp [insert_cons, get?_cons, hk]
      · simp [insert_cons, get?_cons, hk, ho, ih]

/-- A write keeps the keys in place, and a new key comes last. -/
theorem keys_insert (key : κ) (value : α) (table : Table κ α) :
    keys (insert key value table) =
      if key ∈ keys table then keys table else keys table ++ [key] := by
  induction table with
  | nil => simp [keys]
  | cons entry rest ih =>
    obtain ⟨k, v⟩ := entry
    by_cases h : k = key
    · simp [insert_cons, keys, h]
    · have h' : key ≠ k := Ne.symm h
      simp only [keys] at ih
      simp only [insert_cons, keys, h, if_false, List.map_cons, ih, List.mem_cons, h', false_or]
      exact apply_ite (k :: ·) _ _ _

end Table

end GrammarSuite
