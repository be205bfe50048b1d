import GrammarSuite.Settings.File
import GrammarSuite.Proofs.Json.Characters
import GrammarSuite.Proofs.Json.Reading
import GrammarSuite.Proofs.Settings.Values

/-!
# Settings that are saved

A table is saved as JSON and read back. The texts in it may change, since halves of pairs in them are
joined, but the names of settings do not, being ASCII, nor does it change whether a value counts as
set or is less than a number. So the text of a table that passes the check gives settings that pass
it, in every directory and for every home directory.

## Main definitions

* `IsSavable`: a table that can be written and read back
* `IsUsable`: a text of a file of settings that gives settings that pass the check

## Main results

* `isUsable_fileText`: the text of a table that can be saved and passes the check is usable
* `isSavable_merge`: the usual values with those that were read can be saved
* `IsSavable.insert`, `IsSavable.merge`: they stay so when fitting values are written
-/

namespace GrammarSuite.Settings

open Json (Value Misuse)

variable {m m' changes fields : Table String Value} {directory v : Value} {home name text : String}
  {s : Settings}

/-! ## Values that are read back -/

theorem rereadFields_eq_map (fields : List (String × Value)) :
    Value.rereadFields fields = fields.map fun f => (Text.rejoined f.1, f.2.reread) := by
  induction fields with
  | nil => rfl
  | cons f fields ih => rw [Value.rereadFields, ih, List.map_cons]

theorem truthy_reread (v : Value) : v.reread.truthy = v.truthy := by
  cases v with
  | text s =>
    have hempty : (Text.rejoined s).isEmpty = s.isEmpty := by
      rw [Bool.eq_iff_iff, String.isEmpty_iff, String.isEmpty_iff, Text.rejoined_eq_empty_iff]
    rw [Value.reread, Value.truthy, Value.truthy, hempty]
  | list items => cases items <;> rfl
  | object fields =>
    cases fields with
    | nil => rfl
    | cons f fields =>
      have hne : Table.ofPairs (Value.rereadFields (f :: fields)) ≠ [] :=
        Table.ofPairs_ne_nil (List.cons_ne_nil _ _)
      rw [Value.reread, Value.truthy, Value.truthy, List.isEmpty_eq_false_iff.2 hne]
      rfl
  | _ => rfl

/-- Only numbers are compared with a number, and those are read back as they are. -/
theorem reread_of_less {bound : Int} {b : Bool} (h : v.less (.int bound) = .ok b) :
    v.reread = v := by
  cases v with
  | text s => cases h
  | list items => cases h
  | object fields => cases h
  | _ => rfl

/-- A name that no halves of pairs can be joined to is read back with its value. -/
theorem get?_reread (hnames : ∀ f ∈ m, Text.IsSpelled f.1.toList) (hdistinct : (Table.keys m).Nodup)
    (hname : Text.IsAscii name) :
    Table.get? name (Table.ofPairs (Value.rereadFields m)) = (m.get? name).map Value.reread := by
  have hback : ∀ w, (name, w) ∈ Value.rereadFields m → ∃ v, (name, v) ∈ m ∧ w = v.reread := by
    intro w hw
    rw [rereadFields_eq_map] at hw
    obtain ⟨⟨k, v⟩, hmem, heq⟩ := List.mem_map.1 hw
    obtain ⟨hk, rfl⟩ := Prod.mk.inj heq
    obtain rfl := (Text.rejoined_eq_iff (hnames _ hmem) hname).1 hk
    exact ⟨v, hmem, rfl⟩
  rcases hget : m.get? name with _ | v
  · refine Table.get?_ofPairs_eq_none fun w hw => ?_
    obtain ⟨v, hmem, -⟩ := hback w hw
    exact Table.get?_eq_none_iff.1 hget v hmem
  · have hmem := Table.mem_of_get? hget
    refine Table.get?_ofPairs_of_unique ?_ fun w hw => ?_
    · rw [rereadFields_eq_map]
      refine List.mem_map.2 ⟨(name, v), hmem, ?_⟩
      rw [Text.rejoined_of_ascii hname]
    · obtain ⟨v', hmem', rfl⟩ := hback w hw
      rw [← Table.get?_eq_some_iff hdistinct, hget] at hmem'
      rw [Option.some.inj hmem']

/-! ## Tables that can be saved -/

/-- A table that can be written and read back, and from which settings can be made then. -/
structure IsSavable (m : Table String Value) : Prop where
  values : ∀ f ∈ m, f.2.Fits (Json.levelLimit - 1)
  names : ∀ f ∈ m, Text.IsSpelled f.1.toList
  distinct : (Table.keys m).Nodup
  directory : m.get? "app_dir" = none
  self : m.get? "self" = none
  paths : HasPaths m

theorem IsSavable.fits (h : IsSavable m) : (Value.object m).Fits Json.levelLimit :=
  show (Value.object m).Fits (Json.levelLimit - 1 + 1) from .object h.values h.names h.distinct

/-- A table as it is read back with the usual values. -/
def reloaded (m : Table String Value) : Table String Value :=
  Table.merge defaults (Table.ofPairs (Value.rereadFields m))

theorem get?_reloaded (h : IsSavable m) (hname : Text.IsAscii name) :
    (reloaded m).get? name = ((m.get? name).map Value.reread).or (defaults.get? name) := by
  rw [reloaded, Table.get?_merge_of_nodup _ _ (Table.nodup_keys_ofPairs _),
    get?_reread h.names h.distinct hname]

theorem get?_reloaded_of_some (h : IsSavable m) (hname : Text.IsAscii name)
    (hv : m.get? name = some v) : (reloaded m).get? name = some v.reread := by
  rw [get?_reloaded h hname, hv]
  rfl

theorem IsSavable.hasPaths_reloaded (h : IsSavable m) : HasPaths (reloaded m) where
  output := by
    obtain ⟨path, hpath⟩ := h.paths.output
    exact ⟨_, get?_reloaded_of_some h (by decide) hpath⟩
  file v hv htruthy := by
    rw [get?_reloaded h (by decide)] at hv
    rcases hfile : m.get? "grammar_file" with _ | w <;> rw [hfile] at hv
    · obtain rfl := Option.some.inj hv
      cases htruthy
    · obtain rfl := Option.some.inj hv
      rw [truthy_reread] at htruthy
      obtain ⟨path, rfl⟩ := h.paths.file w hfile htruthy
      exact ⟨_, rfl⟩

theorem IsSavable.isValid_reloaded (h : IsSavable m) (hm : IsValid m) : IsValid (reloaded m) where
  depth := by
    obtain ⟨v, hv, hless⟩ := hm.depth
    refine ⟨v.reread, get?_reloaded_of_some h (by decide) hv, ?_⟩
    rwa [reread_of_less hless]
  counts name hname := by
    have hascii : Text.IsAscii name := by
      revert name
      decide
    obtain ⟨v, hv, hless⟩ := hm.counts name hname
    refine ⟨v.reread, get?_reloaded_of_some h hascii hv, ?_⟩
    rwa [reread_of_less hless]
  identifier := by
    obtain ⟨v, hv, htruthy⟩ := hm.identifier
    exact ⟨v.reread, get?_reloaded_of_some h (by decide) hv, by rwa [truthy_reread]⟩

/-! ## Values that are written -/

/-- A value that may be written under a name in a table that is to be saved. -/
structure Suits (name : String) (v : Value) : Prop where
  fits : v.Fits (Json.levelLimit - 1)
  spelled : Text.IsSpelled name.toList
  ne_directory : name ≠ "app_dir"
  ne_self : name ≠ "self"
  output : name = "output_dir" → ∃ path, v = .text path
  file : name = "grammar_file" → v.truthy = true → ∃ path, v = .text path

theorem IsSavable.insert (h : IsSavable m) (hv : Suits name v) : IsSavable (m.insert name v) where
  values f hf := by
    rcases Table.mem_insert hf with rfl | hmem
    · exact hv.fits
    · exact h.values f hmem
  names f hf := by
    rcases Table.mem_insert hf with rfl | hmem
    · exact hv.spelled
    · exact h.names f hmem
  distinct := Table.nodup_keys_insert h.distinct
  directory := by rw [Table.get?_insert_of_ne _ _ hv.ne_directory.symm, h.directory]
  self := by rw [Table.get?_insert_of_ne _ _ hv.ne_self.symm, h.self]
  paths := by
    constructor
    · by_cases hname : name = "output_dir"
      · obtain ⟨path, rfl⟩ := hv.output hname
        exact ⟨path, by rw [hname, Table.get?_insert_self]⟩
      · rw [Table.get?_insert_of_ne _ _ (Ne.symm hname)]
        exact h.paths.output
    · intro w hw htruthy
      by_cases hname : name = "grammar_file"
      · rw [hname, Table.get?_insert_self] at hw
        obtain rfl := Option.some.inj hw
        exact hv.file hname htruthy
      · rw [Table.get?_insert_of_ne _ _ (Ne.symm hname)] at hw
        exact h.paths.file w hw htruthy

theorem IsSavable.merge (h : IsSavable m) (hchanges : ∀ f ∈ changes, Suits f.1 f.2) :
    IsSavable (m.merge changes) := by
  induction changes generalizing m with
  | nil => exact h
  | cons f changes ih =>
    obtain ⟨hf, hrest⟩ := List.forall_mem_cons.1 hchanges
    exact ih (h.insert hf) hrest

theorem suits_text (hspelled : Text.IsSpelled name.toList) (hdirectory : name ≠ "app_dir")
    (hself : name ≠ "self") (path : String) : Suits name (.text path) where
  fits := .text path
  spelled := hspelled
  ne_directory := hdirectory
  ne_self := hself
  output _ := ⟨path, rfl⟩
  file _ _ := ⟨path, rfl⟩

theorem IsSavable.expands (h : IsSavable m) (he : Expands m m') : IsSavable m' := by
  have hspelled : ∀ name ∈ ["output_dir", "grammar_file"], Text.IsAscii name := by decide
  cases he with
  | output path _ =>
    exact h.insert (suits_text (hspelled _ (by decide)).isSpelled (by decide) (by decide) path)
  | both path file =>
    refine (h.insert (suits_text (hspelled _ (by decide)).isSpelled (by decide) (by decide) path)).insert ?_
    exact suits_text (hspelled _ (by decide)).isSpelled (by decide) (by decide) file

theorem fits_small {levels : Nat} {n : Int} (h : n.natAbs < 100) : (Value.int n).Fits levels := by
  have hle : Decimal.tenPow 2 ≤ Decimal.tenPow Text.digitLimit := Json.tenPow_le_tenPow (by decide)
  exact .int (Nat.lt_of_lt_of_le h hle)

theorem suits_defaults : ∀ f ∈ defaults, Suits f.1 f.2 := by
  have hnames : ∀ f ∈ defaults, Text.IsAscii f.1 ∧ f.1 ≠ "app_dir" ∧ f.1 ≠ "self" := by
    simp only [defaults, List.forall_mem_cons]
    decide
  have hfits : ∀ f ∈ defaults, f.2.Fits (Json.levelLimit - 1) := by
    simp only [defaults, List.forall_mem_cons]
    exact ⟨fits_small (by decide), fits_small (by decide), fits_small (by decide),
      fits_small (by decide), .null, .text _, .text _, .null, .text _, .text _, .bool _, by simp⟩
  have hpaths : ∀ f ∈ defaults, (f.1 = "output_dir" → ∃ path, f.2 = .text path) ∧
      (f.1 = "grammar_file" → f.2.truthy = false) := by
    simp [defaults, Value.truthy]
  intro f hf
  obtain ⟨hascii, hdirectory, hself⟩ := hnames f hf
  refine ⟨hfits f hf, hascii.isSpelled, hdirectory, hself, (hpaths f hf).1, fun hname htruthy => ?_⟩
  rw [(hpaths f hf).2 hname] at htruthy
  cases htruthy

theorem isSavable_defaults : IsSavable defaults where
  values f hf := (suits_defaults f hf).fits
  names f hf := (suits_defaults f hf).spelled
  distinct := by decide
  directory := rfl
  self := rfl
  paths := ⟨⟨_, rfl⟩, fun v hv htruthy => by
    obtain rfl := Option.some.inj hv
    cases htruthy⟩

theorem isValid_defaults : IsValid defaults where
  depth := ⟨_, rfl, rfl⟩
  counts := by
    simp only [countNames, List.forall_mem_cons]
    exact ⟨⟨_, rfl, rfl⟩, ⟨_, rfl, rfl⟩, ⟨_, rfl, rfl⟩, by simp⟩
  identifier := ⟨_, rfl, rfl⟩

theorem isLoadable_defaults : IsLoadable defaults := ⟨rfl, rfl, isSavable_defaults.paths⟩

theorem fields_of_fits {levels : Nat} (h : (Value.object fields).Fits levels) :
    (∀ f ∈ fields, f.2.Fits (levels - 1)) ∧ (∀ f ∈ fields, Text.IsSpelled f.1.toList) ∧
      (Table.keys fields).Nodup := by
  cases h with
  | object hvalues hnames hdistinct => exact ⟨hvalues, hnames, hdistinct⟩

/-- **The usual values with those that were read can be saved.** -/
theorem isSavable_merge (hfits : (Value.object fields).Fits Json.levelLimit)
    (h : IsLoadable fields) : IsSavable (Table.merge defaults fields) := by
  obtain ⟨hvalues, hnames, hdistinct⟩ := fields_of_fits hfits
  constructor
  · exact fun f hf => (Table.mem_merge hf).elim (fun hf => (suits_defaults f hf).fits) (hvalues f)
  · exact fun f hf => (Table.mem_merge hf).elim (fun hf => (suits_defaults f hf).spelled) (hnames f)
  · exact Table.nodup_keys_merge isSavable_defaults.distinct fields
  · rw [Table.get?_merge_of_nodup _ _ hdistinct, h.directory]
    rfl
  · rw [Table.get?_merge_of_nodup _ _ hdistinct, h.self]
    rfl
  · exact h.paths

/-- A table that can be saved can be written still with any value that can, be it a path or not. -/
theorem IsSavable.fits_insert (h : IsSavable m) (hspelled : Text.IsSpelled name.toList)
    (hv : v.Fits (Json.levelLimit - 1)) : (Value.object (m.insert name v)).Fits Json.levelLimit := by
  have hvalues : ∀ f ∈ m.insert name v, f.2.Fits (Json.levelLimit - 1) := fun f hf =>
    (Table.mem_insert hf).elim (fun he => he ▸ hv) (h.values f)
  have hnames : ∀ f ∈ m.insert name v, Text.IsSpelled f.1.toList := fun f hf =>
    (Table.mem_insert hf).elim (fun he => he ▸ hspelled) (h.names f)
  exact show (Value.object _).Fits (Json.levelLimit - 1 + 1) from
    .object hvalues hnames (Table.nodup_keys_insert h.distinct)

/-- No settings can be made of a table whose output directory is no text, once it is read back. -/
theorem not_isLoadable_of_output (hfits : (Value.object m).Fits Json.levelLimit)
    (houtput : m.get? "output_dir" = some v) (hv : ∀ path, v.reread ≠ .text path) :
    ¬ IsLoadable (Table.ofPairs (Value.rereadFields m)) := by
  obtain ⟨-, hnames, hdistinct⟩ := fields_of_fits hfits
  rintro ⟨-, -, ⟨⟨path, hpath⟩, -⟩⟩
  rw [Table.get?_merge_of_nodup _ _ (Table.nodup_keys_ofPairs _),
    get?_reread hnames hdistinct (by decide), houtput] at hpath
  exact hv path (Option.some.inj hpath)

/-! ## Texts of files of settings -/

/-- A text of a file of settings that gives settings that pass the check. -/
def IsUsable (text : String) : Prop :=
  Text.IsSpelled text.toList ∧ ∃ fields,
    Json.read (String.ofList (Text.normalizeNewlines text.toList)) = .ok (.object fields) ∧
      IsLoadable fields ∧ IsValid (Table.merge defaults fields)

/-- **The text of a table that passes the check is usable.** -/
theorem isUsable_fileText (h : IsSavable m) (hm : IsValid m) : IsUsable (fileText (.object m)) := by
  refine ⟨(Json.isAscii_pretty 0 _).isSpelled, Table.ofPairs (Value.rereadFields m), ?_, ?_,
    h.isValid_reloaded hm⟩
  · rw [fileText, Json.normalizeNewlines_pretty, String.ofList_toList, Json.read_pretty h.fits]
    rfl
  · refine ⟨?_, ?_, h.hasPaths_reloaded⟩
    · rw [get?_reread h.names h.distinct (by decide), h.directory]
      rfl
    · rw [get?_reread h.names h.distinct (by decide), h.self]
      rfl

end GrammarSuite.Settings
