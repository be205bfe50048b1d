import GrammarSuite.Proofs.FileTree.Kept
import GrammarSuite.Proofs.Settings.Saved

/-!
# The file of settings

Loading settings changes nothing of a file of settings that is there, and makes a usable one where
there is none, unless the directory leads through the place of the file. Saving settings that pass
the check leaves a usable file. A usable file can be loaded, and gives settings that pass the check.

## Main definitions

* `readable`: the text of a file as it is read
* `directoryPath`: the path of the directory that a value names
* `IsLoaded`: settings with a directory, whose table can be saved

## Main results

* `load_keeps`, `load_makes`: what loading does where there is a file of settings, and where there
  is none
* `runOn_save_eq_ok`: how settings are saved
* `save_keeps`: what saving leaves
* `load_of_has`: what loading gives where there is a file
* `load_of_isUsable`: a usable file can be loaded, and gives settings that pass the check
* `not_load_of_output`: settings whose output directory is no text cannot be loaded again
-/

namespace GrammarSuite.Settings

open FileTree GrammarSuite.Action
open Json (Value)

variable {t t' : FileTree} {p : Place} {text path home : String} {directory : Value}
  {fields m : Table String Value} {s : Settings}

/-! ## Reading -/

theorem has_iff : t.has path = true ↔ ∃ q n, t.locate path = .ok q ∧ t.node? q = some n := by
  rw [has, Option.isSome_iff_exists]
  simp only [at?_eq_some_iff]
  exact exists_comm

/-- A file that stands where a path leads to is found if anything is. -/
theorem locate_of_has (h : t.has path = true) : t.locate path = .ok (Path.place path) := by
  obtain ⟨q, n, hlocate, -⟩ := has_iff.1 h
  rw [hlocate, locate_eq hlocate]

/-- The text of a file as it is read: with all line ends as line feeds. -/
def readable (text : String) : String := String.ofList (Text.normalizeNewlines text.toList)

/-- A file of settings is read as it was written. -/
theorem readable_fileText (v : Value) : readable (fileText v) = fileText v := by
  rw [readable, fileText, Json.normalizeNewlines_pretty, String.ofList_toList]

/-- The values of a file that is there are those of its text. -/
theorem readValues_of_holds (h : t.Holds p text) (hlocate : t.locate path = .ok p) :
    readValues t path = match Json.read (readable text) with
      | .error f => .error (if f.problem.isLimit then .limit f else .config (.malformed path f))
      | .ok (.object fields) => .ok fields
      | .ok _ => .error (.config (.notObject path)) := by
  have hread : t.readText path = .ok (readable text) := by
    unfold readText locateFile
    rw [hlocate]
    simp [h.node, bind, Except.bind, readable]
  unfold readValues
  rewrite [hread]
  rfl

theorem readValues_eq_ok_iff (h : t.Holds p text) (hlocate : t.locate path = .ok p) :
    readValues t path = .ok fields ↔
      Json.read (String.ofList (Text.normalizeNewlines text.toList)) = .ok (.object fields) := by
  rw [readValues_of_holds h hlocate]
  change _ ↔ Json.read (readable text) = _
  split
  · rename_i f hf
    simp [hf]
  · rename_i fields' hf
    simp [hf]
  · rename_i v hobject hf
    rw [hf]
    simp only [reduceCtorEq, Except.ok.injEq, false_iff]
    exact hobject fields

/-- Settings in a directory, whose table can be saved. -/
def IsLoaded (s : Settings) : Prop := ∃ m path, s = ofParts m (.text path) ∧ IsSavable m

/-- Settings from the values of a text. -/
theorem isLoaded_of_read (hspelled : Text.IsSpelled text.toList)
    (hread : Json.read (String.ofList (Text.normalizeNewlines text.toList)) = .ok (.object fields))
    (hs : ofValues home (some (.text path)) fields = .ok s) :
    IsLoaded s ∧ (s.validate = .ok () ↔ IsValid (Table.merge defaults fields)) := by
  have hfits := Json.fits_of_read hread (by
    rw [String.toList_ofList]
    exact Json.isSpelled_normalizeNewlines hspelled)
  have hsavable := isSavable_merge hfits (exists_ofValues_iff.1 ⟨s, hs⟩)
  obtain ⟨m, rfl, hexpands⟩ := expands_of_ofValues hs
  exact ⟨⟨m, path, rfl, hsavable.expands hexpands⟩, validate_ofParts_iff.trans hexpands.isValid_iff⟩

/-! ## Loading -/

/-- The path of the directory that a value names; null names the usual one. -/
def directoryPath (home : String) (directory : Value) : Except SettingsError String :=
  expandPath home (if isNull directory then .text (usualDirectory home) else directory)

/-- What is kept when the directory is made is kept, and its path is returned. -/
theorem makeDirectory_ensures {I : FileTree → Prop}
    (h : ∀ path, directoryPath home directory = .ok path → (makeDirectories path).Preserves I) :
    (makeDirectory home directory).Ensures I
      (fun path t => directoryPath home directory = .ok path ∧ I t) fun _ => I := by
  unfold makeDirectory
  dsimp only
  split
  · exact .throw fun _ ht => ht
  · rename_i path hpath
    have hmade : ((makeDirectories path).within id (fun t _ => t)
        SettingsError.directory).Preserves I :=
      Preserves.within (h path hpath) (fun _ ht => ht) fun _ _ _ ht => ht
    exact hmade.ensures.bind fun _ => .pure fun _ ht => ⟨hpath, ht⟩

theorem runOn_write {wrap : FileError → ConfigError} : (write path text wrap).runOn t =
    match t.writeText path text with
    | .ok t' => (.ok (), t')
    | .error e => (.error (.config (wrap e)), t) := by
  simp only [write, runOn, within, change, ofFunction]
  rcases hwrite : t.writeText path text with e | t'
  · simp [hwrite]
  · simp [hwrite]

/-- What follows is done behind a file that was written; else the tree is left as it is. -/
theorem write_bind_ensures {α : Type} {wrap : FileError → ConfigError} {Q : α → FileTree → Prop}
    {F : SettingsError → FileTree → Prop} {k : Unit → Action FileTree SettingsError α}
    (hwritten : ∀ t', t.writeText path text = .ok t' → (k ()).Ensures (fun u => u = t') Q F)
    (hkept : ∀ e, F e t) : (write path text wrap >>= k).Ensures (fun t' => t' = t) Q F := by
  rintro _ rfl
  rw [runOn_bind, runOn_write]
  rcases hwrite : FileTree.writeText _ path text with e | t'
  · refine ⟨fun a u hrun => by simp at hrun, fun e' u hrun => ?_⟩
    rw [← (Prod.mk.inj hrun).2]
    exact hkept e'
  · exact hwritten t' hwrite t' rfl

/-- A file is there where it can be written. -/
theorem has_of_writeText (h : t.Holds (Path.place path) text) {new : String}
    (hwrite : t.writeText path new = .ok t') : t.has path = true := by
  obtain ⟨q, hlocate, -, -⟩ := writeText_eq_ok hwrite
  refine has_iff.2 ⟨q, .file text, hlocate, ?_⟩
  rw [locate_eq hlocate, h.node]

/-- **Loading settings changes nothing of a file that is there.** The settings can be saved, and the
file is usable if they pass the check. -/
theorem load_keeps
    (hp : ∀ path, directoryPath home directory = .ok path → Path.place (filePath path) = p)
    (hspelled : Text.IsSpelled text.toList) :
    (load home directory).Ensures (fun t => t.Holds p text)
      (fun s t => t.Holds p text ∧ IsLoaded s ∧ (s.validate = .ok () → IsUsable text))
      fun _ t => t.Holds p text := by
  unfold load
  refine (makeDirectory_ensures fun path _ => makeDirectories_holds path p text).bind fun path => ?_
  refine Ensures.get_bind fun t ⟨hpath, ht⟩ => ?_
  rw [← hp path hpath] at ht ⊢
  split
  · rename_i hhas
    refine (ensures_ofExcept fun e t' ht' => ?_).mono (fun t' ht' => ht') (fun s t' hs => ?_)
      fun e t' he => he
    · rw [ht']
      exact ht
    · obtain ⟨hs, rfl⟩ := hs
      obtain ⟨fields, hread, hs⟩ := bind_eq_ok_iff.1 hs
      rw [readValues_eq_ok_iff ht (locate_of_has hhas)] at hread
      obtain ⟨hloaded, hvalid⟩ := isLoaded_of_read hspelled hread hs
      exact ⟨ht, hloaded, fun hs' => ⟨hspelled, fields, hread, exists_ofValues_iff.1 ⟨s, hs⟩, hvalid.1 hs'⟩⟩
  · rename_i hhas
    exact write_bind_ensures (fun t' hwrite => absurd (has_of_writeText ht hwrite) hhas) fun _ => ht

/-- Settings from the usual values. -/
theorem isLoaded_defaults (hs : ofValues home (some (.text path)) defaults = .ok s) : IsLoaded s := by
  obtain ⟨m, rfl, hexpands⟩ := expands_of_ofValues hs
  exact ⟨m, path, rfl, isSavable_defaults.expands hexpands⟩

/-- **Loading settings makes a usable file where there is none**, if the directory does not lead
through its place. -/
theorem load_makes
    (hp : ∀ path, directoryPath home directory = .ok path → Path.place (filePath path) = p)
    (hthrough : ∀ path, directoryPath home directory = .ok path → ¬ Path.Passes path p) :
    (load home directory).Ensures (fun t => t.node? p = none)
      (fun s t => (∃ text, t.Holds p text ∧ IsUsable text) ∧ IsLoaded s)
      fun _ t => t.node? p = none := by
  unfold load
  refine (makeDirectory_ensures fun path hpath => makeDirectories_none (hthrough path hpath)).bind
    fun path => ?_
  refine Ensures.get_bind fun t ⟨hpath, ht⟩ => ?_
  rw [← hp path hpath] at ht ⊢
  split
  · rename_i hhas
    obtain ⟨q, n, hlocate, hnode⟩ := has_iff.1 hhas
    rw [locate_eq hlocate, ht] at hnode
    cases hnode
  · refine write_bind_ensures (fun t' hwrite => ?_) fun _ => ht
    obtain ⟨s, hs⟩ := exists_ofValues_iff.2 isLoadable_defaults
    rw [hs]
    refine .pure fun t ht => ⟨⟨_, ?_, isUsable_fileText isSavable_defaults isValid_defaults⟩,
      isLoaded_defaults hs⟩
    rw [ht]
    exact holds_of_writeText hwrite

/-! ## Saving -/

/-- **How settings are saved**: the directory is made, and the file is written. -/
theorem runOn_save_eq_ok : ((ofParts m directory).save home).runOn t = (.ok path, t') ↔
    ∃ d u, (makeDirectory home directory).runOn t = (.ok d, u) ∧ path = filePath d ∧
      u.writeText (filePath d) (fileText (.object m)) = .ok t' := by
  unfold save
  rw [member_directory_ofParts, values_ofParts]
  show Action.runOn (makeDirectory home directory >>= _) t = _ ↔ _
  rw [runOn_bind_eq_ok]
  refine exists_congr fun d => exists_congr fun u => and_congr_right fun _ => ?_
  dsimp only
  rw [runOn_bind, runOn_write]
  rcases u.writeText (filePath d) (fileText (.object m)) with e | u'
  · simp
  · simp [eq_comm]

/-- **Saving settings that pass the check leaves a usable file**, wherever they are saved. -/
theorem save_keeps (hs : IsLoaded s) (hvalid : s.validate = .ok ()) :
    (s.save home).Preserves fun t => ∃ text, t.Holds p text ∧ IsUsable text := by
  obtain ⟨m, d, rfl, hsavable⟩ := hs
  have hmade : ∀ path, (makeDirectories path).Preserves
      fun t => ∃ text, t.Holds p text ∧ IsUsable text := by
    rintro path t ⟨text, ht, husable⟩
    exact ⟨text, makeDirectories_holds path p text t ht, husable⟩
  apply Ensures.preserves
  unfold save
  rw [member_directory_ofParts, values_ofParts]
  show Ensures _ (makeDirectory home (.text d) >>= _) _ _
  refine (makeDirectory_ensures fun path _ => hmade path).bind fun path => ?_
  dsimp only
  intro t ⟨_, ht⟩
  refine write_bind_ensures ?_ (fun _ => ht) t rfl
  intro t' hwrite
  refine .pure fun u hu => ?_
  rw [hu]
  by_cases hp : Path.place (filePath path) = p
  · rw [← hp]
    exact ⟨_, holds_of_writeText hwrite, isUsable_fileText hsavable (validate_ofParts_iff.1 hvalid)⟩
  · obtain ⟨text, ht, husable⟩ := ht
    exact ⟨text, ht.writeText hp hwrite, husable⟩

/-! ## Files that can be loaded -/

theorem makeDirectory_of_locate {q : Place} (hdirectory : directoryPath home directory = .ok path)
    (hspelled : Text.IsSpelled path.toList) (hlocate : t.locate path = .ok q)
    (hnode : t.node? q = some .directory) :
    (makeDirectory home directory).runOn t = (.ok path, t) := by
  have hmade := makeDirectories_of_locate hspelled hlocate hnode
  unfold makeDirectory
  dsimp only
  rw [directoryPath] at hdirectory
  rw [hdirectory]
  exact runOn_bind_eq_ok.2 ⟨(), t, runOn_within_eq_ok.2 ⟨t, hmade, rfl⟩, rfl⟩

/-- **Settings are loaded from a file that is there** by reading its values, and nothing else is
done. -/
theorem load_of_has (hdirectory : directoryPath home directory = .ok path) (hne : path ≠ "")
    (hspelled : Text.IsSpelled path.toList) (hhas : t.has (filePath path) = true) :
    (load home directory).runOn t =
      (readValues t (filePath path) >>= ofValues home (some (.text path)), t) := by
  have hlocate := locate_of_has hhas
  obtain ⟨q, hq, hnode⟩ := locate_of_join hne hspelled (by decide) hlocate
  have hmade := makeDirectory_of_locate hdirectory hspelled hq hnode
  unfold load
  rw [runOn_bind, hmade]
  dsimp only
  rw [runOn_bind, runOn_get]
  dsimp only
  rw [if_pos hhas]
  rcases readValues t (filePath path) >>= ofValues home (some (.text path)) with e | s <;> rfl

/-- **A usable file can be loaded**, and gives settings that pass the check. -/
theorem load_of_isUsable (hdirectory : directoryPath home directory = .ok path) (hne : path ≠ "")
    (hspelled : Text.IsSpelled path.toList) (ht : t.Holds (Path.place (filePath path)) text)
    (hhas : t.has (filePath path) = true) (husable : IsUsable text) :
    ∃ s, (load home directory).runOn t = (.ok s, t) ∧ s.validate = .ok () := by
  obtain ⟨htext, fields, hread, hloadable, hvalid⟩ := husable
  have hmade : ∃ s, ofValues home (some (.text path)) fields = .ok s :=
    exists_ofValues_iff.2 hloadable
  obtain ⟨s, hs⟩ := hmade
  refine ⟨s, ?_, (isLoaded_of_read htext hread hs).2.2 hvalid⟩
  rw [load_of_has hdirectory hne hspelled hhas, bind_eq_ok_iff.2
    ⟨fields, (readValues_eq_ok_iff ht (locate_of_has hhas)).2 hread, hs⟩]

/-- **Settings whose output directory is no text cannot be loaded** from the file that saving them
leaves. -/
theorem not_load_of_output {v : Value} (hdirectory : directoryPath home directory = .ok path)
    (hne : path ≠ "") (hspelled : Text.IsSpelled path.toList)
    (hfits : (Value.object m).Fits Json.levelLimit) (houtput : m.get? "output_dir" = some v)
    (hv : ∀ path, v.reread ≠ .text path)
    (ht : t.Holds (Path.place (filePath path)) (fileText (.object m)))
    (hhas : t.has (filePath path) = true) : ¬ ∃ s, ((load home directory).runOn t).1 = .ok s := by
  rintro ⟨s, hs⟩
  rw [load_of_has hdirectory hne hspelled hhas, readValues_of_holds ht (locate_of_has hhas),
    readable_fileText, fileText, Json.read_pretty hfits] at hs
  exact not_isLoadable_of_output hfits houtput hv (exists_ofValues_iff.1 ⟨s, hs⟩)

end GrammarSuite.Settings
