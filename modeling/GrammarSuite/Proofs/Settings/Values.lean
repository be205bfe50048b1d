import GrammarSuite.Settings.Basic
import GrammarSuite.Proofs.Action
import GrammarSuite.Proofs.Table

/-!
# Settings from values

Settings that are made from named values are a table and a directory. Whether they can be made is
seen from the table, and so is whether they pass the check; neither depends on the directory or on
the home directory. What is made differs from the usual values and the named ones by its paths only.

## Main definitions

* `IsValid`: a table passes the check
* `HasPaths`: the paths in a table are texts
* `Expands`: a table with other texts as its paths
* `IsLoadable`: settings can be made from named values

## Main results

* `validate_ofParts_iff`: settings pass the check exactly if their table does
* `exists_ofTable_iff`, `exists_ofValues_iff`: from which values settings can be made
* `expands_of_ofTable`, `expands_of_ofValues`: what they are made of
-/

namespace GrammarSuite.Settings

open Json (Value Misuse)
open GrammarSuite.Action

variable {m m' changes : Table String Value} {directory v : Value} {home name : String}
  {s : Settings}

/-! ## Settings as a table and a directory -/

@[simp] theorem values_ofParts : (ofParts m directory).values = .ok (.object m) := rfl

@[simp] theorem member_directory_ofParts :
    (ofParts m directory).member directoryName = .ok directory := rfl

@[simp] theorem value_ofParts : (ofParts m directory).value name = (m.get? name).getD .null := rfl

theorem assign_ofParts (h : isMember name = false) :
    (ofParts m directory).assign name v = .ok (ofParts (m.insert name v) directory) := by
  unfold assign
  rw [h]
  rfl

/-- Changed settings have the values that are not null. -/
theorem update_ofParts : (ofParts m directory).update changes =
    .ok (ofParts (m.merge (changes.filter fun (_, v) => !isNull v)) directory) := by
  unfold update
  generalize changes.filter (fun (_, v) => !isNull v) = entries
  induction entries generalizing m with
  | nil => rfl
  | cons entry entries ih => exact ih

/-! ## The check -/

/-- A table passes the check. -/
structure IsValid (m : Table String Value) : Prop where
  depth : ∃ v, m.get? "max_depth" = some v ∧ v.less (.int 1) = .ok false
  counts : ∀ name ∈ countNames, ∃ v, m.get? name = some v ∧ v.less (.int 0) = .ok false
  identifier : ∃ v, m.get? "identifier" = some v ∧ v.truthy = true

/-- The names of settings that are checked. -/
def checkedNames : List String := "max_depth" :: "identifier" :: countNames

/-- Tables that agree on what is checked. -/
theorem IsValid.congr (h : IsValid m) (hsame : ∀ name ∈ checkedNames, m'.get? name = m.get? name) :
    IsValid m' where
  depth := by
    rw [hsame "max_depth" (by decide)]
    exact h.depth
  counts name hname := by
    rw [hsame name (List.mem_cons_of_mem _ (List.mem_cons_of_mem _ hname))]
    exact h.counts name hname
  identifier := by
    rw [hsame "identifier" (by decide)]
    exact h.identifier

theorem isValid_insert_iff (h : name ∉ checkedNames) : IsValid (m.insert name v) ↔ IsValid m := by
  have hsame : ∀ other ∈ checkedNames, (m.insert name v).get? other = m.get? other := by
    intro other hother
    refine Table.get?_insert_of_ne _ _ ?_
    rintro rfl
    exact h hother
  exact ⟨fun hm => hm.congr fun other hother => (hsame other hother).symm, fun hm => hm.congr hsame⟩

theorem lookup_ofParts (h : name ∈ checkedNames) : (ofParts m directory).lookup name =
    match m.get? name with
    | some v => .ok v
    | none => .error (.unknown name) := by
  have hplain : name ≠ membersName ∧ name ≠ nullName ∧ name ≠ valuesName ∧ name ≠ directoryName ∧
      unstated.get? name = none ∧ isMember name = false := by
    revert name
    decide
  obtain ⟨hmembers, hnull, hvalues, hdirectory, hunstated, hmember⟩ := hplain
  have hnone : (ofParts m directory).members.get? name = none := by
    simp [ofParts, Table.get?, hvalues.symm, hdirectory.symm]
  rw [lookup, if_neg hmembers, if_neg hnull, hnone, hunstated]
  simp only [hmember, setting]
  rcases hget : m.get? name with _ | v
  · simp [Value.contains, hget, bind, Except.bind]
    rfl
  · simp [Value.contains, hget, entry, Value.under, bind, Except.bind]

theorem less_eq_ok_iff {bound : Int} {b : Bool} :
    less v bound = .ok b ↔ v.less (.int bound) = .ok b := mapError_eq_ok_iff

/-- A check that goes on only where a value is not less than a bound. -/
theorem less_bind_eq_ok_iff {bound : Int} {f : Bool → Except SettingsError Unit}
    (h : f true ≠ .ok ()) :
    (less v bound >>= f) = .ok () ↔ v.less (.int bound) = .ok false ∧ f false = .ok () := by
  rw [bind_eq_ok_iff]
  constructor
  · rintro ⟨b, hless, hf⟩
    cases b with
    | true => exact absurd hf h
    | false => exact ⟨less_eq_ok_iff.1 hless, hf⟩
  · rintro ⟨hless, hf⟩
    exact ⟨false, less_eq_ok_iff.2 hless, hf⟩

theorem validateCount_ofParts_iff : (ofParts m directory).validateCount name = .ok () ↔
    ∃ v, m.get? name = some v ∧ v.less (.int 0) = .ok false := by
  have hentry : ∀ v, entry name (.object m) = .ok v ↔ m.get? name = some v := by
    intro v
    rw [entry, mapError_eq_ok_iff, Value.under]
    rcases m.get? name with _ | w <;> simp
  unfold validateCount
  rw [values_ofParts]
  show (entry name (.object m) >>= _) = _ ↔ _
  rw [bind_eq_ok_iff]
  refine exists_congr fun v => and_congr (hentry v) ?_
  rw [less_bind_eq_ok_iff (by simp [throw, throwThe, MonadExceptOf.throw])]
  exact and_iff_left rfl

theorem lookup_eq_ok_iff (h : name ∈ checkedNames) :
    (ofParts m directory).lookup name = .ok v ↔ m.get? name = some v := by
  rw [lookup_ofParts h]
  rcases m.get? name with _ | w <;> simp

theorem forM_eq_ok_iff {names : List String} {f : String → Except SettingsError Unit} :
    names.forM f = .ok () ↔ ∀ name ∈ names, f name = .ok () := by
  induction names with
  | nil => simp [List.forM, pure, Except.pure]
  | cons name names ih =>
    rw [List.forM, bind_eq_ok_iff, List.forall_mem_cons, ← ih]
    constructor
    · rintro ⟨_, hf, hrest⟩
      exact ⟨hf, hrest⟩
    · rintro ⟨hf, hrest⟩
      exact ⟨(), hf, hrest⟩

/-- **Settings pass the check exactly if their table does.** -/
theorem validate_ofParts_iff : (ofParts m directory).validate = .ok () ↔ IsValid m := by
  have hidentifier : ∀ v : Value, (if (!v.truthy) = true then
      throw (.config .noIdentifier) else pure () : Except SettingsError Unit) = .ok () ↔
      v.truthy = true := by
    intro v
    cases v.truthy <;> simp [throw, throwThe, MonadExceptOf.throw, pure, Except.pure]
  have hstep : (ofParts m directory).validate = .ok () ↔
      ∃ v, m.get? "max_depth" = some v ∧ v.less (.int 1) = .ok false ∧
        (∀ name ∈ countNames, (ofParts m directory).validateCount name = .ok ()) ∧
        ∃ w, m.get? "identifier" = some w ∧ w.truthy = true := by
    unfold validate
    rw [bind_eq_ok_iff]
    refine exists_congr fun v => and_congr (lookup_eq_ok_iff (by decide)) ?_
    rw [less_bind_eq_ok_iff (by simp [throw, throwThe, MonadExceptOf.throw, bind, Except.bind])]
    refine and_congr_right fun _ => ?_
    simp only [Bool.false_eq_true, if_false, bind_eq_ok_iff, hidentifier]
    rw [← forM_eq_ok_iff]
    have hlookup : ∀ w, (ofParts m directory).lookup "identifier" = .ok w ↔
        m.get? "identifier" = some w := fun w => lookup_eq_ok_iff (by decide)
    simp only [hlookup]
    constructor
    · rintro ⟨_, hcounts, hw⟩
      exact ⟨hcounts, hw⟩
    · rintro ⟨hcounts, hw⟩
      exact ⟨(), hcounts, hw⟩
  simp only [hstep, validateCount_ofParts_iff]
  constructor
  · rintro ⟨v, hv, hless, hcounts, hw⟩
    exact ⟨⟨v, hv, hless⟩, hcounts, hw⟩
  · rintro ⟨⟨v, hv, hless⟩, hcounts, hw⟩
    exact ⟨v, hv, hless, hcounts, hw⟩

/-! ## Paths -/

/-- The paths in a table are texts; that of a grammar file may be unset. -/
structure HasPaths (m : Table String Value) : Prop where
  output : ∃ path, m.get? "output_dir" = some (.text path)
  file : ∀ v, m.get? "grammar_file" = some v → v.truthy = true → ∃ path, v = .text path

/-- A table with other texts for its paths. -/
inductive Expands (m : Table String Value) : Table String Value → Prop
  | output (path : String) (h : ((m.get? "grammar_file").getD .null).truthy = false) :
    Expands m (m.insert "output_dir" (.text path))
  | both (path file : String) :
    Expands m ((m.insert "output_dir" (.text path)).insert "grammar_file" (.text file))

theorem expandPath_eq_ok_iff {path : String} :
    expandPath home v = .ok path ↔ ∃ s, v = .text s ∧ path = Path.expandHome home s := by
  rw [expandPath, mapError_eq_ok_iff]
  cases v <;> simp [Value.pathText, Except.map, eq_comm]

theorem expandPath_text (home path : String) :
    expandPath home (.text path) = .ok (Path.expandHome home path) :=
  expandPath_eq_ok_iff.2 ⟨path, rfl, rfl⟩

/-- How settings are made: the paths of their table get the home directory. -/
theorem ofTable_eq : ofTable home directory changes =
    expandPath home (((Table.merge defaults changes).get? "output_dir").getD .null) >>= fun path =>
      let file := ((Table.merge defaults changes).get? "grammar_file").getD .null
      let m := (Table.merge defaults changes).insert "output_dir" (.text path)
      if file.truthy then expandPath home file >>= fun f =>
        .ok (ofParts (m.insert "grammar_file" (.text f)) directory)
      else .ok (ofParts m directory) := by
  have hfile : ∀ path, (Table.insert "output_dir" (.text path) (Table.merge defaults changes)).get?
      "grammar_file" = (Table.merge defaults changes).get? "grammar_file" := fun path =>
    Table.get?_insert_of_ne _ _ (by decide)
  unfold ofTable
  refine bind_congr fun path => ?_
  dsimp only
  rw [← hfile path]
  rfl

/-- **Settings can be made exactly from tables whose paths are texts.** -/
theorem exists_ofTable_iff : (∃ s, ofTable home directory changes = .ok s) ↔
    HasPaths (Table.merge defaults changes) := by
  rw [ofTable_eq]
  constructor
  · rintro ⟨s, h⟩
    obtain ⟨path, hpath, h⟩ := bind_eq_ok_iff.1 h
    obtain ⟨out, hout, -⟩ := expandPath_eq_ok_iff.1 hpath
    refine ⟨⟨out, ?_⟩, fun v hv htruthy => ?_⟩
    · rcases hget : (Table.merge defaults changes).get? "output_dir" with _ | v <;>
        rw [hget] at hout
      · cases hout
      · exact congrArg some hout
    · dsimp only at h
      rw [hv, Option.getD_some, if_pos htruthy] at h
      obtain ⟨file, hfile, -⟩ := bind_eq_ok_iff.1 h
      obtain ⟨f, hf, -⟩ := expandPath_eq_ok_iff.1 hfile
      exact ⟨f, hf⟩
  · rintro ⟨⟨out, hout⟩, hfile⟩
    rw [hout, Option.getD_some]
    by_cases htruthy : (((Table.merge defaults changes).get? "grammar_file").getD .null).truthy
    · rcases hget : (Table.merge defaults changes).get? "grammar_file" with _ | v <;>
        rw [hget] at htruthy
      · cases htruthy
      · obtain ⟨f, rfl⟩ := hfile v hget htruthy
        exact ⟨_, bind_eq_ok_iff.2 ⟨_, expandPath_text home out, (if_pos htruthy).trans
          (bind_eq_ok_iff.2 ⟨_, expandPath_text home f, rfl⟩)⟩⟩
    · exact ⟨_, bind_eq_ok_iff.2 ⟨_, expandPath_text home out, if_neg htruthy⟩⟩

/-- What is made differs from the table by its paths only. -/
theorem expands_of_ofTable (h : ofTable home directory changes = .ok s) :
    ∃ m, s = ofParts m directory ∧ Expands (Table.merge defaults changes) m := by
  rw [ofTable_eq] at h
  obtain ⟨path, -, h⟩ := bind_eq_ok_iff.1 h
  dsimp only at h
  split at h
  · obtain ⟨file, -, hs⟩ := bind_eq_ok_iff.1 h
    exact ⟨_, (Except.ok.inj hs).symm, .both path file⟩
  · rename_i hunset
    exact ⟨_, (Except.ok.inj h).symm, .output path (by simpa using hunset)⟩

/-- Named values that settings in a directory can be made from. -/
structure IsLoadable (fields : Table String Value) : Prop where
  directory : fields.get? "app_dir" = none
  self : fields.get? "self" = none
  paths : HasPaths (Table.merge defaults fields)

/-- Settings in a directory from named values are those of the table, if no name has another use. -/
theorem ofValues_eq_ok_iff : ofValues home (some directory) changes = .ok s ↔
    changes.get? "app_dir" = none ∧ changes.get? "self" = none ∧
      ofTable home directory changes = .ok s := by
  unfold ofValues
  rcases hdirectory : changes.get? "app_dir" with _ | v
  · rw [Table.erase_eq_self hdirectory]
    rcases hself : changes.get? "self" with _ | v <;> simp
  · simp

theorem exists_ofValues_iff :
    (∃ s, ofValues home (some directory) changes = .ok s) ↔ IsLoadable changes := by
  simp only [ofValues_eq_ok_iff, exists_and_left, exists_ofTable_iff]
  constructor
  · rintro ⟨hdirectory, hself, hpaths⟩
    exact ⟨hdirectory, hself, hpaths⟩
  · rintro ⟨hdirectory, hself, hpaths⟩
    exact ⟨hdirectory, hself, hpaths⟩

theorem expands_of_ofValues (h : ofValues home (some directory) changes = .ok s) :
    ∃ m, s = ofParts m directory ∧ Expands (Table.merge defaults changes) m :=
  expands_of_ofTable (ofValues_eq_ok_iff.1 h).2.2

/-- Paths are not checked. -/
theorem Expands.isValid_iff (h : Expands m m') : IsValid m' ↔ IsValid m := by
  cases h with
  | output path _ => exact isValid_insert_iff (by decide)
  | both path file =>
    rw [isValid_insert_iff (by decide), isValid_insert_iff (by decide)]

end GrammarSuite.Settings
