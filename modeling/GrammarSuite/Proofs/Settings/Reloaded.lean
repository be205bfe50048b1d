import GrammarSuite.Proofs.FileTree.Home
import GrammarSuite.Proofs.Settings.Files

/-!
# Settings that are saved and loaded

Settings are made from named values and changed, and then saved and loaded. If a file gives every
single value back as it was written, loading gives back the table that was saved. The usual settings
come first in it, so that they are all replaced by what was saved, and its paths have the home
directory already, so that they stay as they are.

## Main definitions

* `IsRepresentable`: a file gives a setting back as it was written
* `IsComplete`, `IsSettled`: a table that starts with the usual settings, with the home directory in
  its paths
* `Change`, `Change.writes`: a change of settings, and the values that it writes
* `IsWritable`: the file of settings can be written

## Main results

* `ofValues_of_isSettled`: settings are made of such a table as it is
* `foldlM_apply`: changes write their values, one after the other
* `loaded_as_saved`: what is loaded is what was saved
-/

namespace GrammarSuite.Settings

open FileTree GrammarSuite.Action
open Json (Value)

variable {t t' : FileTree} {path home name : String} {directory v : Value}
  {m settings : Table String Value} {f : String × Value} {s : Settings}

/-! ## Settings that a file gives back -/

/-- A file gives a setting back as it was written. -/
def IsRepresentable (f : String × Value) : Prop :=
  Json.read (fileText (.object [f])) = .ok (.object [f])

theorem isRepresentable_iff : IsRepresentable f ↔
    f.2.Fits (Json.levelLimit - 1) ∧ Text.IsJoined f.1 ∧ f.2.reread = f.2 := by
  have hreread : (Value.object [f]).reread = .object [(Text.rejoined f.1, f.2.reread)] := rfl
  constructor
  · intro h
    have hfits := Json.fits_of_read h (Json.isAscii_pretty 0 _).isSpelled
    obtain ⟨hvalues, -, -⟩ := fields_of_fits hfits
    rw [IsRepresentable, fileText, Json.read_pretty hfits, hreread] at h
    obtain ⟨hname, hvalue⟩ : Text.rejoined f.1 = f.1 ∧ f.2.reread = f.2 := by
      simpa [Prod.ext_iff] using h
    exact ⟨hvalues f List.mem_cons_self, hname, hvalue⟩
  · rintro ⟨hfits, hname, hvalue⟩
    have hspelled := (Text.isJoined_iff.1 hname).1
    have hobject : (Value.object [f]).Fits (Json.levelLimit - 1 + 1) :=
      .object (by simpa using hfits) (by simpa using hspelled) (List.nodup_singleton _)
    rw [IsRepresentable, fileText, Json.read_pretty hobject, hreread, hvalue,
      show Text.rejoined f.1 = f.1 from hname]

/-- **A table of such settings is given back by its file.** -/
theorem read_fileText (h : ∀ f ∈ m, IsRepresentable f) (hdistinct : (Table.keys m).Nodup) :
    Json.read (fileText (.object m)) = .ok (.object m) := by
  have hobject : (Value.object m).Fits (Json.levelLimit - 1 + 1) :=
    .object (fun f hf => (isRepresentable_iff.1 (h f hf)).1)
      (fun f hf => (Text.isJoined_iff.1 (isRepresentable_iff.1 (h f hf)).2.1).1) hdistinct
  have hsame : ∀ f ∈ m, (Text.rejoined f.1, f.2.reread) = f := by
    intro f hf
    obtain ⟨-, hname, hvalue⟩ := isRepresentable_iff.1 (h f hf)
    exact Prod.ext hname hvalue
  rw [fileText, Json.read_pretty hobject, Value.reread, rereadFields_eq_map,
    List.map_congr_left hsame, List.map_id', Table.ofPairs_eq_self hdistinct]

theorem isRepresentable_text (hname : Text.IsAscii name) (hpath : Text.IsJoined path) :
    IsRepresentable (name, .text path) :=
  isRepresentable_iff.2 ⟨.text path, Text.rejoined_of_ascii hname, congrArg Value.text hpath⟩

theorem isJoined_of_isRepresentable (h : IsRepresentable (name, .text path)) :
    Text.IsJoined path := by
  obtain ⟨-, -, hvalue⟩ := isRepresentable_iff.1 h
  exact Value.text.inj hvalue

theorem isRepresentable_defaults : ∀ f ∈ defaults, IsRepresentable f := by
  have hsame : ∀ f ∈ defaults, Text.IsJoined f.1 ∧ f.2.reread = f.2 := by
    simp only [defaults, List.forall_mem_cons, Value.reread, Value.text.injEq, List.not_mem_nil,
      false_implies, implies_true]
    decide
  intro f hf
  exact isRepresentable_iff.2 ⟨(suits_defaults f hf).fits, hsame f hf⟩

/-! ## The paths of settings that are made -/

section

variable {out file : String}
  (hout : (Table.merge defaults settings).get? "output_dir" = some (.text out))

include hout

/-- Settings are made with the home directory in the path of the reports. -/
theorem ofTable_of_unset
    (hunset : (((Table.merge defaults settings).get? "grammar_file").getD .null).truthy = false) :
    ofTable home directory settings = .ok (ofParts ((Table.merge defaults settings).insert
      "output_dir" (.text (Path.expandHome home out))) directory) := by
  rw [ofTable_eq, hout]
  refine bind_eq_ok_iff.2 ⟨_, expandPath_text home out, ?_⟩
  dsimp only
  rw [if_neg (by simpa using hunset)]

/-- A grammar file that is set gets the home directory, too. -/
theorem ofTable_of_set
    (hfile : (Table.merge defaults settings).get? "grammar_file" = some (.text file))
    (hset : (Value.text file).truthy = true) :
    ofTable home directory settings = .ok (ofParts (((Table.merge defaults settings).insert
      "output_dir" (.text (Path.expandHome home out))).insert
      "grammar_file" (.text (Path.expandHome home file))) directory) := by
  rw [ofTable_eq, hout, hfile]
  refine bind_eq_ok_iff.2 ⟨_, expandPath_text home out, ?_⟩
  dsimp only
  rw [Option.getD_some, if_pos hset]
  exact bind_eq_ok_iff.2 ⟨_, expandPath_text home file, rfl⟩

end

/-- A grammar file is unset, or its path is a text. -/
theorem HasPaths.unset_or_set (h : HasPaths m) :
    ((m.get? "grammar_file").getD .null).truthy = false ∨
      ∃ file, m.get? "grammar_file" = some (.text file) ∧ (Value.text file).truthy = true := by
  rcases hget : m.get? "grammar_file" with _ | v
  · exact .inl rfl
  · by_cases hset : v.truthy = true
    · obtain ⟨file, rfl⟩ := h.file v hget hset
      exact .inr ⟨file, rfl, hset⟩
    · exact .inl (by simpa using hset)

/-! ## Tables that stay as they are -/

/-- A table that starts with the usual settings, and that a file gives back. -/
structure IsComplete (m : Table String Value) : Prop where
  keys : Table.keys defaults <+: Table.keys m
  distinct : (Table.keys m).Nodup
  directory : m.get? "app_dir" = none
  self : m.get? "self" = none
  representable : ∀ f ∈ m, IsRepresentable f

theorem IsComplete.insert (h : IsComplete m) (hdirectory : name ≠ "app_dir")
    (hself : name ≠ "self") (hv : IsRepresentable (name, v)) : IsComplete (m.insert name v) where
  keys := Table.prefix_keys_insert h.keys
  distinct := Table.nodup_keys_insert h.distinct
  directory := by rw [Table.get?_insert_of_ne _ _ hdirectory.symm, h.directory]
  self := by rw [Table.get?_insert_of_ne _ _ hself.symm, h.self]
  representable f hf := by
    rcases Table.mem_insert hf with rfl | hmem
    · exact hv
    · exact h.representable f hmem

/-- A table with the home directory in its paths already. -/
structure IsSettled (home : String) (m : Table String Value) : Prop extends IsComplete m where
  output : ∃ path, m.get? "output_dir" = some (.text path) ∧ Path.expandHome home path = path
  file : ∀ v, m.get? "grammar_file" = some v → v.truthy = true →
    ∃ path, v = .text path ∧ Path.expandHome home path = path

/-- The names whose values have another use, or are changed when settings are made. -/
def reservedNames : List String := ["output_dir", "grammar_file", "app_dir", "self"]

theorem IsSettled.insert (h : IsSettled home m) (hname : name ∉ reservedNames)
    (hv : IsRepresentable (name, v)) : IsSettled home (m.insert name v) := by
  obtain ⟨houtput, hfile, hdirectory, hself⟩ : name ≠ "output_dir" ∧ name ≠ "grammar_file" ∧
      name ≠ "app_dir" ∧ name ≠ "self" := by
    simpa [reservedNames] using hname
  refine ⟨h.toIsComplete.insert hdirectory hself hv, ?_, ?_⟩
  · rw [Table.get?_insert_of_ne _ _ houtput.symm]
    exact h.output
  · rw [Table.get?_insert_of_ne _ _ hfile.symm]
    exact h.file

theorem IsSettled.merge {changes : Table String Value} (h : IsSettled home m)
    (hchanges : ∀ f ∈ changes, f.1 ∉ reservedNames ∧ IsRepresentable f) :
    IsSettled home (m.merge changes) := by
  induction changes generalizing m with
  | nil => exact h
  | cons f changes ih =>
    obtain ⟨⟨hname, hf⟩, hrest⟩ := List.forall_mem_cons.1 hchanges
    exact ih (h.insert hname hf) hrest

theorem IsSettled.hasPaths (h : IsSettled home m) : HasPaths m where
  output := by
    obtain ⟨path, hpath, -⟩ := h.output
    exact ⟨path, hpath⟩
  file v hv hset := by
    obtain ⟨path, hpath, -⟩ := h.file v hv hset
    exact ⟨path, hpath⟩

/-- **Settings are made of such a table as it is.** -/
theorem ofValues_of_isSettled (h : IsSettled home m) :
    ofValues home (some directory) m = .ok (ofParts m directory) := by
  have hmerge : Table.merge defaults m = m := Table.merge_eq_self h.keys h.distinct
  obtain ⟨out, hout, hhome⟩ := h.output
  have houtput : m.insert "output_dir" (.text out) = m := Table.insert_eq_self hout
  refine ofValues_eq_ok_iff.2 ⟨h.directory, h.self, ?_⟩
  rcases h.hasPaths.unset_or_set with hunset | ⟨file, hfile, hset⟩
  · have hmade := @ofTable_of_unset home directory m out
    rw [hmerge, hhome, houtput] at hmade
    exact hmade hout hunset
  · obtain ⟨path, hpath, hhome'⟩ := h.file _ hfile hset
    obtain rfl := Value.text.inj hpath
    have hsame : m.insert "grammar_file" (.text file) = m := Table.insert_eq_self hfile
    have hmade := @ofTable_of_set home directory m out file
    rw [hmerge, hhome, houtput, hhome', hsame] at hmade
    exact hmade hout hfile hset

/-! ## Settings as they are made -/

/-- Named values of which settings are made, and that a file gives back. -/
structure AreRepresentable (settings : Table String Value) : Prop where
  all : ∀ f ∈ settings, IsRepresentable f
  directory : ∀ v, ("app_dir", v) ∉ settings
  self : ∀ v, ("self", v) ∉ settings
  output : ∀ v, ("output_dir", v) ∈ settings → ∃ path, v = .text path
  file : ∀ v, ("grammar_file", v) ∈ settings → v = .null ∨ ∃ path, v = .text path

theorem AreRepresentable.isComplete (h : AreRepresentable settings) :
    IsComplete (Table.merge defaults settings) where
  keys := Table.prefix_keys_merge List.prefix_rfl settings
  distinct := Table.nodup_keys_merge isSavable_defaults.distinct settings
  directory := Table.get?_eq_none_iff.2 fun v hv =>
    (Table.mem_merge hv).elim (Table.get?_eq_none_iff.1 isSavable_defaults.directory v)
      (h.directory v)
  self := Table.get?_eq_none_iff.2 fun v hv =>
    (Table.mem_merge hv).elim (Table.get?_eq_none_iff.1 isSavable_defaults.self v) (h.self v)
  representable f hf := (Table.mem_merge hf).elim (isRepresentable_defaults f) (h.all f)

theorem AreRepresentable.hasPaths (h : AreRepresentable settings) :
    HasPaths (Table.merge defaults settings) where
  output := by
    have hkey : "output_dir" ∈ Table.keys (Table.merge defaults settings) :=
      h.isComplete.keys.subset (by decide)
    obtain ⟨⟨name, v⟩, hmem, rfl⟩ := List.mem_map.1 hkey
    have hv := (Table.get?_eq_some_iff h.isComplete.distinct).2 hmem
    rcases Table.mem_merge hmem with hdefault | hgiven
    · rw [← Table.get?_eq_some_iff isSavable_defaults.distinct] at hdefault
      obtain rfl := Option.some.inj hdefault
      exact ⟨_, hv⟩
    · obtain ⟨path, rfl⟩ := h.output v hgiven
      exact ⟨path, hv⟩
  file v hv htruthy := by
    rcases Table.mem_merge (Table.mem_of_get? hv) with hdefault | hgiven
    · rw [← Table.get?_eq_some_iff isSavable_defaults.distinct] at hdefault
      obtain rfl := Option.some.inj hdefault
      cases htruthy
    · rcases h.file v hgiven with rfl | hpath
      · cases htruthy
      · exact hpath

/-- A path in a table that a file gives back can be given the home directory. -/
theorem IsComplete.isRepresentable_expandHome (h : IsComplete m) (hhome : Text.IsJoined home)
    (hname : Text.IsAscii name) (hpath : m.get? name = some (.text path)) :
    IsRepresentable (name, .text (Path.expandHome home path)) := by
  have hjoined := isJoined_of_isRepresentable (h.representable _ (Table.mem_of_get? hpath))
  exact isRepresentable_text hname (Path.isJoined_expandHome hhome hjoined)

/-- **Settings that are made have the home directory in their paths.** -/
theorem exists_isSettled (hhome : Text.IsJoined home)
    (honce : ∀ path, Path.expandHome home (Path.expandHome home path) = Path.expandHome home path)
    (h : AreRepresentable settings) (directory : Value) :
    ∃ m, ofValues home (some directory) settings = .ok (ofParts m directory) ∧
      Expands (Table.merge defaults settings) m ∧ IsSettled home m := by
  have hcomplete := h.isComplete
  obtain ⟨out, hout⟩ := h.hasPaths.output
  have hmade : ∀ {m}, ofTable home directory settings = .ok (ofParts m directory) →
      ofValues home (some directory) settings = .ok (ofParts m directory) := fun hm =>
    ofValues_eq_ok_iff.2 ⟨Table.get?_eq_none_iff.2 h.directory, Table.get?_eq_none_iff.2 h.self, hm⟩
  have houtput := hcomplete.isRepresentable_expandHome hhome (by decide) hout
  have hbase := hcomplete.insert (by decide) (by decide) houtput
  rcases h.hasPaths.unset_or_set with hunset | ⟨file, hfile, hset⟩
  · refine ⟨_, hmade (ofTable_of_unset hout hunset), .output _ hunset, hbase,
      ⟨_, Table.get?_insert_self _ _ _, honce out⟩, fun w hw hset => ?_⟩
    rw [Table.get?_insert_of_ne _ _ (by decide)] at hw
    rw [hw, Option.getD_some, hset] at hunset
    cases hunset
  · have hrepresentable := hcomplete.isRepresentable_expandHome hhome (by decide) hfile
    refine ⟨_, hmade (ofTable_of_set hout hfile hset), .both _ _,
      hbase.insert (by decide) (by decide) hrepresentable, ⟨_, ?_, honce out⟩, fun w hw _ => ?_⟩
    · rw [Table.get?_insert_of_ne _ _ (by decide), Table.get?_insert_self]
    · rw [Table.get?_insert_self] at hw
      exact ⟨_, (Option.some.inj hw).symm, honce file⟩

/-! ## Changes -/

/-- A change of settings: several values by name, or one value. -/
inductive Change
  | update (overrides : Table String Value)
  | assign (name : String) (v : Value)

namespace Change

/-- Settings behind a change. -/
def apply (s : Settings) : Change → Except SettingsError Settings
  | update overrides => s.updateNamed (.object overrides)
  | assign name v => s.assign name v

/-- The values that a change writes: several values are written except where they are null. -/
def writes : Change → Table String Value
  | update overrides => overrides.filter fun f => !isNull f.2
  | assign name v => [(name, v)]

/-- A change can be made: its values can be given by name, and its value is not that of a member. -/
def IsPossible : Change → Prop
  | update overrides => overrides.get? "self" = none
  | assign name _ => isMember name = false

/-- A change writes settings other than the paths, and a file gives them back. -/
structure IsPlain (c : Change) : Prop where
  possible : c.IsPossible
  writes : ∀ f ∈ c.writes, f.1 ∉ reservedNames ∧ IsRepresentable f

/-- **A change writes its values.** -/
theorem apply_ofParts {c : Change} (h : c.IsPossible) :
    apply (ofParts m directory) c = .ok (ofParts (m.merge c.writes) directory) := by
  cases c with
  | update overrides =>
    have hself : overrides.get? "self" = none := h
    show (ofParts m directory).updateNamed (.object overrides) = _
    unfold updateNamed
    refine bind_eq_ok_iff.2 ⟨overrides, rfl, ?_⟩
    rw [hself]
    exact update_ofParts
  | assign name v => exact assign_ofParts h

/-- **Changes write their values**, one after the other. -/
theorem foldlM_apply {changes : List Change} (h : ∀ c ∈ changes, c.IsPossible) :
    changes.foldlM apply (ofParts m directory) =
      .ok (ofParts (m.merge (changes.flatMap writes)) directory) := by
  induction changes generalizing m with
  | nil => rfl
  | cons c changes ih =>
    obtain ⟨hc, hchanges⟩ := List.forall_mem_cons.1 h
    rw [List.foldlM_cons, apply_ofParts hc, List.flatMap_cons]
    have hmerge : m.merge (c.writes ++ changes.flatMap writes) =
        (m.merge c.writes).merge (changes.flatMap writes) := List.foldl_append
    rw [hmerge]
    exact ih hchanges

end Change

/-! ## Saving and loading -/

theorem toJson_ofParts : (ofParts m directory).toJson = .ok (.object m) := by
  have hnamed : (Json.Entries.ofTable m).named = m := by
    rw [Json.Entries.ofTable, Json.Entries.named, List.map_map]
    exact List.map_id m
  unfold toJson
  refine bind_eq_ok_iff.2 ⟨.object m, rfl, ?_⟩
  rw [Value.entries, Except.map, hnamed]
  rfl

/-- The file of settings can be written: its directory can be made, and a file may stand at its
path. -/
def IsWritable (home : String) (directory : Value) (t : FileTree) : Prop :=
  ∃ d t', (makeDirectory home directory).runOn t = (.ok d, t') ∧
    ∃ p, t'.locateFile (filePath d) = .ok p

theorem makeDirectory_eq_ok {d : String}
    (h : (makeDirectory home directory).runOn t = (.ok d, t')) :
    directoryPath home directory = .ok d ∧ d ≠ "" := by
  unfold makeDirectory at h
  dsimp only at h
  split at h
  · simp at h
  · rename_i path hpath
    obtain ⟨_, u, hmade, hpure⟩ := runOn_bind_eq_ok.1 h
    obtain ⟨u', hmade, -⟩ := runOn_within_eq_ok.1 hmade
    obtain ⟨rfl, -⟩ : path = d ∧ u = t' := by simpa using hpure
    exact ⟨hpath, ne_empty_of_makeDirectories hmade⟩

/-- **Settings are saved wherever their file can be written.** -/
theorem isWritable_iff : IsWritable home directory t ↔
    ∃ path t', ((ofParts m directory).save home).runOn t = (.ok path, t') := by
  simp only [runOn_save_eq_ok]
  constructor
  · rintro ⟨d, u, hmade, p, hp⟩
    have hwrite := writeText_of_ascii hp (Json.isAscii_pretty 0 (.object m))
    exact ⟨filePath d, _, d, u, hmade, rfl, hwrite⟩
  · rintro ⟨-, t', d, u, hmade, -, hwrite⟩
    exact ⟨d, u, hmade, locateFile_of_writeText hwrite⟩

theorem isSpelled_directoryPath (hhome : Text.IsSpelled home.toList)
    (hdirectory : ∀ d, directory = .text d → Text.IsSpelled d.toList)
    (h : directoryPath home directory = .ok path) : Text.IsSpelled path.toList := by
  obtain ⟨given, hgiven, rfl⟩ := expandPath_eq_ok_iff.1 h
  refine Path.isSpelled_expandHome hhome ?_
  split at hgiven
  · obtain rfl := Value.text.inj hgiven
    have htilde : Text.IsSpelled "~".toList := (by decide : Text.IsAscii "~").isSpelled
    exact Path.isSpelled_join (Path.isSpelled_expandHome hhome htilde)
      (by decide : Text.IsAscii ".cfgcases").isSpelled
  · exact hdirectory given hgiven

/-- **Settings that were saved are loaded**, with the table that was saved. -/
theorem load_of_save (h : IsSettled home m) (hhome : Text.IsSpelled home.toList)
    (hdirectory : ∀ d, directory = .text d → Text.IsSpelled d.toList)
    (hsave : ((ofParts m directory).save home).runOn t = (.ok path, t')) :
    ∃ d, (load home directory).runOn t' = (.ok (ofParts m (.text d)), t') := by
  obtain ⟨d, u, hmade, -, hwrite⟩ := runOn_save_eq_ok.1 hsave
  obtain ⟨hpath, hne⟩ := makeDirectory_eq_ok hmade
  have hspelled := isSpelled_directoryPath hhome hdirectory hpath
  have hholds := holds_of_writeText hwrite
  have hlocate := locate_of_writeText hwrite
  have hhas : t'.has (filePath d) = true := has_iff.2 ⟨_, _, hlocate, hholds.node⟩
  have hread : readValues t' (filePath d) = .ok m := by
    rw [readValues_of_holds hholds hlocate, readable_fileText,
      read_fileText h.representable h.distinct]
  refine ⟨d, ?_⟩
  rw [load_of_has hpath hne hspelled hhas, bind_eq_ok_iff.2 ⟨m, hread, ofValues_of_isSettled h⟩]

/-- **What is loaded is what was saved.** Settings are made of named values and changed, and
whenever they can be saved, loading gives settings with the same table, other settings than the
usual ones included. Values that are null are not written when several are changed. -/
theorem loaded_as_saved {changes : List Change} (hhome : Text.IsJoined home)
    (honce : ∀ path, Path.expandHome home (Path.expandHome home path) = Path.expandHome home path)
    (hdirectory : ∀ d, directory = .text d → Text.IsSpelled d.toList)
    (hsettings : AreRepresentable settings) (hchanges : ∀ c ∈ changes, c.IsPlain) :
    ∃ made m, ofValues home (some directory) settings = .ok (ofParts made directory) ∧
      Expands (Table.merge defaults settings) made ∧
      changes.foldlM Change.apply (ofParts made directory) = .ok (ofParts m directory) ∧
      m = made.merge (changes.flatMap Change.writes) ∧
      (ofParts m directory).toJson = .ok (.object m) ∧
      ∀ t, (IsWritable home directory t ↔
          ∃ path t', ((ofParts m directory).save home).runOn t = (.ok path, t')) ∧
        ∀ path t', ((ofParts m directory).save home).runOn t = (.ok path, t') →
          ∃ loaded, (load home directory).runOn t' = (.ok loaded, t') ∧
            loaded.toJson = .ok (.object m) := by
  obtain ⟨made, hmade, hexpands, hsettled⟩ := exists_isSettled hhome honce hsettings directory
  have hwrites : ∀ f ∈ changes.flatMap Change.writes, f.1 ∉ reservedNames ∧ IsRepresentable f := by
    intro f hf
    obtain ⟨c, hc, hf⟩ := List.mem_flatMap.1 hf
    exact (hchanges c hc).writes f hf
  have hchanged := hsettled.merge hwrites
  refine ⟨made, _, hmade, hexpands, Change.foldlM_apply fun c hc => (hchanges c hc).possible, rfl,
    toJson_ofParts, fun t => ⟨isWritable_iff, fun path t' hsave => ?_⟩⟩
  obtain ⟨d, hload⟩ := load_of_save hchanged (Text.isJoined_iff.1 hhome).1 hdirectory hsave
  exact ⟨_, hload, toJson_ofParts⟩

/-- Reports in the home directory and a setting that is none of the usual ones, saved after changes
of which one is null. -/
theorem loaded_as_saved_recolored :
    ∃ made m, ofValues "/home/user" (some (.text "c"))
        [("output_dir", .text "~/out"), ("color", .text "blue")] =
          .ok (ofParts made (.text "c")) ∧
      [Change.update [("seed", .null), ("valid_count", .int 3)],
        Change.assign "color" (.text "red")].foldlM Change.apply (ofParts made (.text "c")) =
          .ok (ofParts m (.text "c")) ∧
      m.get? "color" = some (.text "red") ∧
      ∃ path t' loaded, ((ofParts m (.text "c")).save "/home/user").runOn {} = (.ok path, t') ∧
        (load "/home/user" (.text "c")).runOn t' = (.ok loaded, t') ∧
        loaded.toJson = .ok (.object m) := by
  have hplain : ∀ text ∈ ["~/out", "blue", "red", "/home/user"], Text.IsJoined text := by decide
  have houtput : IsRepresentable ("output_dir", .text "~/out") :=
    isRepresentable_text (by decide) (hplain _ (by decide))
  have hblue : IsRepresentable ("color", .text "blue") :=
    isRepresentable_text (by decide) (hplain _ (by decide))
  have hred : IsRepresentable ("color", .text "red") :=
    isRepresentable_text (by decide) (hplain _ (by decide))
  have hcount : IsRepresentable ("valid_count", .int 3) :=
    isRepresentable_iff.2 ⟨fits_small (by decide), Text.rejoined_of_ascii (by decide), rfl⟩
  have hsettings : AreRepresentable [("output_dir", .text "~/out"), ("color", .text "blue")] :=
    ⟨by simp [houtput, hblue], by simp, by simp, by simp, by simp⟩
  have hchanges : ∀ c ∈ [Change.update [("seed", .null), ("valid_count", .int 3)],
      Change.assign "color" (.text "red")], c.IsPlain := by
    simp only [List.forall_mem_cons, List.not_mem_nil, false_implies, implies_true, and_true]
    refine ⟨⟨rfl, ?_⟩, rfl, ?_⟩
    · simpa [Change.writes, isNull] using ⟨by decide, hcount⟩
    · simpa [Change.writes] using ⟨by decide, hred⟩
  have hdirectory : ∀ d, Value.text "c" = .text d → Text.IsSpelled d.toList := by
    intro d hd
    obtain rfl := Value.text.inj hd
    exact (by decide : Text.IsAscii "c").isSpelled
  obtain ⟨made, m, hmade, -, hchanged, hm, -, hsaved⟩ := loaded_as_saved
    (hplain "/home/user" (by decide)) (Path.expandHome_expandHome (by decide)) hdirectory hsettings
    hchanges
  obtain ⟨hwritable, hloaded⟩ := hsaved {}
  have hfile : IsWritable "/home/user" (.text "c") {} := ⟨"c", _, rfl, _, rfl⟩
  obtain ⟨path, t', hsave⟩ := hwritable.1 hfile
  obtain ⟨loaded, hload, hjson⟩ := hloaded path t' hsave
  refine ⟨made, m, hmade, hchanged, ?_, path, t', loaded, hsave, hload, hjson⟩
  rw [hm, Table.get?_merge]
  rfl

end GrammarSuite.Settings
