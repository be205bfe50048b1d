import GrammarSuite.Json.Order

/-!
# Values as entries

A value that holds keys with their values has entries: an object, or a list or a text whose items
are pairs. Keys may be of any kind that can be looked up; keys that are the same count as one, which
keeps its first spelling and its last value. In an object every key has a name, and keys of
different kinds may have the same one.

## Main definitions

* `Entries`: keys with their values
* `Entries.write`, `Entries.get?`: writes one value, and the value of a name
* `Entries.named`: entries by the names of their keys
* `Value.entry`: a key with its value
* `Value.entries`: a value as entries

## Main statements

* `get?_write_text`: a name has the value that was written to it last
* `get?_write_of_ne`: a key that is another one leaves the value of a name alone
-/

namespace GrammarSuite.Json

namespace Value

/-- Fails if a value cannot be a key. -/
def checkKey : Value → Except Misuse Unit
  | v@(.list _) | v@(.object _) => .error (.notKey v.typeName)
  | _ => .ok ()

/-- The name that a key has in an object. -/
def keyName : Value → String
  | .text s => s
  | .bool b => if b then "true" else "false"
  | .float x => Decimal.text Json.numberLayout x
  | .null => "null"
  | v => v.display

end Value

/-- Keys with their values, in the order of the first writes. -/
abbrev Entries := List (Value × Value)

namespace Entries

/-- Writes a value: in place if the key is present, at the end if not. -/
def write (key v : Value) : Entries → Entries
  | [] => [(key, v)]
  | (k, w) :: rest => if k.same key then (k, v) :: rest else (k, w) :: write key v rest

/-- The value of a name. -/
def get? (name : String) : Entries → Option Value
  | [] => none
  | (k, v) :: rest => if k.same (.text name) then some v else get? name rest

/-- The keys, in order. -/
def keys (entries : Entries) : List Value := entries.map Prod.fst

/-- The entries by the names of their keys. Keys that have the same name stay apart. -/
def named (entries : Entries) : Table String Value := entries.map fun (k, v) => (k.keyName, v)

/-- The entries of a table. -/
def ofTable (fields : Table String Value) : Entries := fields.map fun (k, v) => (.text k, v)

end Entries

namespace Value

/-- The key and the value that an item at a position stands for. -/
def entry (position : Nat) (item : Value) : Except Misuse (Value × Value) :=
  match item.itemsOf? with
  | none => .error (.notEntryItems position)
  | some [key, v] => do
    checkKey key
    pure (key, v)
  | some items => .error (.notPair position items.length)

/-- The entries that items stand for, the first one at a position. -/
def entriesFrom (position : Nat) (entries : Entries) : List Value → Except Misuse Entries
  | [] => .ok entries
  | item :: rest => do
    let (key, v) ← entry position item
    entriesFrom (position + 1) (entries.write key v) rest

/-- A value as entries. -/
def entries (v : Value) : Except Misuse Entries :=
  match v with
  | .object fields => .ok (.ofTable fields)
  | v => do entriesFrom 0 [] (← v.iterated)

end Value

namespace Entries

/-- A name has the value that was written to it last. -/
theorem get?_write_text (name : String) (v : Value) (entries : Entries) :
    get? name (write (.text name) v entries) = some v := by
  induction entries with
  | nil => simp [write, get?]
  | cons e rest ih =>
    obtain ⟨k, w⟩ := e
    by_cases h : k = .text name <;> simp [write, get?, h, ih]

/-- A key that is another one leaves the value of a name alone. -/
theorem get?_write_of_ne {name : String} {key : Value} (v : Value) (entries : Entries)
    (h : key ≠ .text name) : get? name (write key v entries) = get? name entries := by
  induction entries with
  | nil => simp [write, get?, h]
  | cons e rest ih =>
    obtain ⟨k, w⟩ := e
    by_cases hk : k.same key
    · have hn : k ≠ .text name := by
        rintro rfl
        exact h (by simpa using hk)
      simp [write, get?, hk, hn]
    · rw [write, if_neg hk]
      by_cases hn : k = .text name <;> simp [get?, hn, ih]

end Entries

end GrammarSuite.Json
