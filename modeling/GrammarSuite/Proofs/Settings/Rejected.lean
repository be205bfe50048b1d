import GrammarSuite.Proofs.Settings.Reloaded
import GrammarSuite.Proofs.Settings.Typed

/-!
# Files of settings that are rejected

A file of settings is loaded and its settings are checked. Something may be wrong with the file, and
most of it is reported as a fault of settings. Not so the rest: values that are no paths or no
numbers where those are needed, two names that have another use, and what is beyond the limits of
the reader of JSON. From the text of the file it is seen whether all that is wrong is reported.

## Main definitions

* `loadChecked`: loads settings and checks them
* `InTurn`: something holds of each item as long as something else holds of those before it
* `IsReported`: a text of a file of settings with which nothing is wrong that is not reported

## Main results

* `faults_forM_iff`: when checks in turn only have faults that are reported
* `validate_faults_iff`: when the check of settings has
* `loadChecked_faults_iff`: when loading and checking have, by the text of the file
-/

namespace GrammarSuite.Settings

open FileTree GrammarSuite.Action
open Json (Value)

variable {t : FileTree} {path home name text : String} {directory v : Value}
  {m m' fields : Table String Value} {s : Settings} {α β : Type}

/-! ## Reported faults -/

theorem faults_bind_iff {x : Except SettingsError α} {k : α → Except SettingsError β} :
    Faults (x >>= k) ↔ Faults x ∧ ∀ a, x = .ok a → Faults (k a) := by
  constructor
  · intro h
    refine ⟨fun e he => h e (bind_eq_error_iff.2 (.inl he)), fun a ha e he => ?_⟩
    exact h e (bind_eq_error_iff.2 (.inr ⟨a, ha, he⟩))
  · rintro ⟨hx, hk⟩
    exact hx.bind hk

/-- A value that is used in a way that its kind does not allow is not reported. -/
theorem faults_iff_exists_of_misuse {x : Except SettingsError α}
    (h : ∀ e, x = .error e → ∃ misuse, e = .misuse misuse) : Faults x ↔ ∃ a, x = .ok a := by
  cases x with
  | ok a => exact iff_of_true (.of_ok rfl) ⟨a, rfl⟩
  | error e =>
    refine iff_of_false (fun hx => ?_) (by simp)
    obtain ⟨misuse, rfl⟩ := h e rfl
    obtain ⟨c, hc⟩ := hx _ rfl
    cases hc

theorem mapError_misuse_eq_error {x : Except Json.Misuse α} {e : SettingsError}
    (h : x.mapError .misuse = .error e) : ∃ misuse, e = .misuse misuse := by
  cases x with
  | ok a => cases h
  | error misuse => exact ⟨misuse, (Except.error.inj h).symm⟩

/-! ## Checks in turn -/

/-- The first property holds of each item, as long as the second one holds of all before it. -/
def InTurn (A B : α → Prop) (items : List α) : Prop :=
  ∀ before a after, items = before ++ a :: after → (∀ b ∈ before, B b) → A a

variable {A B : α → Prop} {a : α} {items : List α}

theorem inTurn_nil : InTurn A B [] := by
  intro before a after h
  exact absurd h.symm (by simp)

theorem inTurn_cons : InTurn A B (a :: items) ↔ A a ∧ (B a → InTurn A B items) := by
  constructor
  · intro h
    refine ⟨h [] a items rfl (by simp), fun ha before b after hitems hbefore => ?_⟩
    refine h (a :: before) b after (by rw [hitems]; rfl) ?_
    exact List.forall_mem_cons.2 ⟨ha, hbefore⟩
  · rintro ⟨ha, hitems⟩ before b after hsplit hbefore
    cases before with
    | nil =>
      obtain ⟨rfl, -⟩ := List.cons.inj hsplit
      exact ha
    | cons c before =>
      obtain ⟨rfl, hrest⟩ := List.cons.inj hsplit
      obtain ⟨hc, hbefore⟩ := List.forall_mem_cons.1 hbefore
      exact hitems hc before b after hrest hbefore

/-- **Checks in turn have only faults that are reported** if each has that is come to. -/
theorem faults_forM_iff {check : α → Except SettingsError Unit}
    (hA : ∀ a ∈ items, (Faults (check a) ↔ A a)) (hB : ∀ a ∈ items, (check a = .ok () ↔ B a)) :
    Faults (items.forM check) ↔ InTurn A B items := by
  induction items with
  | nil => exact iff_of_true (.of_ok rfl) inTurn_nil
  | cons a items ih =>
    obtain ⟨hAa, hA⟩ := List.forall_mem_cons.1 hA
    obtain ⟨hBa, hB⟩ := List.forall_mem_cons.1 hB
    rw [inTurn_cons, ← hAa, ← hBa, ← ih hA hB]
    show Faults (check a >>= fun _ => items.forM check) ↔ _
    rw [faults_bind_iff]
    exact and_congr_right fun _ => ⟨fun h => h (), fun h _ => h⟩

/-! ## The check of settings -/

/-- The names of the settings that are compared, in turn. -/
def comparedNames : List String := "max_depth" :: countNames

/-- What a setting must not be less than. -/
def leastOf (name : String) : Int := if name = "max_depth" then 1 else 0

/-- The value of a setting is a number, or a truth value that counts as one. -/
def HasNumber (m : Table String Value) (name : String) : Prop :=
  ∃ v, m.get? name = some v ∧ v.number?.isSome = true

/-- The value of a setting is not too small. -/
def IsLargeEnough (m : Table String Value) (name : String) : Prop :=
  ∃ v, m.get? name = some v ∧ v.less (.int (leastOf name)) = .ok false

/-- Only numbers can be compared with a number. -/
theorem faults_less_iff {bound : Int} : Faults (less v bound) ↔ v.number?.isSome = true := by
  have hmisuse : ∀ e, less v bound = .error e → ∃ misuse, e = .misuse misuse :=
    fun e he => mapError_misuse_eq_error he
  rw [faults_iff_exists_of_misuse hmisuse]
  simp only [less_eq_ok_iff, Value.less]
  cases v <;> simp [Value.holds, Value.plainHold, Value.number?]

/-- A check that only reports what is too small. -/
theorem faults_less_bind_iff {bound : Int} {k : Bool → Except SettingsError β}
    (h : Faults (k true)) :
    Faults (less v bound >>= k) ↔
      v.number?.isSome = true ∧ (v.less (.int bound) = .ok false → Faults (k false)) := by
  rw [faults_bind_iff, faults_less_iff]
  refine and_congr_right fun _ => ?_
  constructor
  · intro hk hless
    exact hk false (less_eq_ok_iff.2 hless)
  · intro hk b hb
    cases b with
    | false => exact hk (less_eq_ok_iff.1 hb)
    | true => exact h

theorem hasNumber_iff (hv : m.get? name = some v) : HasNumber m name ↔ v.number?.isSome = true := by
  simp [HasNumber, hv]

theorem isLargeEnough_iff (hv : m.get? name = some v) :
    IsLargeEnough m name ↔ v.less (.int (leastOf name)) = .ok false := by
  simp [IsLargeEnough, hv]

/-- The check of a count reports whatever is wrong if the count is a number. -/
theorem validateCount_faults_iff (hv : m.get? name = some v) :
    Faults ((ofParts m directory).validateCount name) ↔ v.number?.isSome = true := by
  have hentry : entry name (.object m) = .ok v := by
    rw [entry, Value.under, hv]
    rfl
  unfold validateCount
  rw [values_ofParts]
  show Faults (entry name (.object m) >>= _) ↔ _
  rw [hentry]
  show Faults (less v 0 >>= _) ↔ _
  rw [faults_less_bind_iff (Faults.throw _)]
  exact and_iff_left fun _ => .of_ok rfl

/-- **The check of settings reports whatever is wrong** if the values that it compares are numbers,
up to the first one that is too small. -/
theorem validate_faults_iff (hpresent : ∀ name ∈ checkedNames, ∃ v, m.get? name = some v) :
    Faults (ofParts m directory).validate ↔
      InTurn (HasNumber m) (IsLargeEnough m) comparedNames := by
  obtain ⟨depth, hdepth⟩ := hpresent "max_depth" (by decide)
  obtain ⟨identifier, hidentifier⟩ := hpresent "identifier" (by decide)
  have hlookup : (ofParts m directory).lookup "max_depth" = .ok depth :=
    (lookup_eq_ok_iff (by decide)).2 hdepth
  have hlookup' : (ofParts m directory).lookup "identifier" = .ok identifier :=
    (lookup_eq_ok_iff (by decide)).2 hidentifier
  have hcounts : Faults (countNames.forM (ofParts m directory).validateCount) ↔
      InTurn (HasNumber m) (IsLargeEnough m) countNames := by
    refine faults_forM_iff (fun name hname => ?_) fun name hname => ?_
    · obtain ⟨v, hv⟩ := hpresent name (List.mem_cons_of_mem _ (List.mem_cons_of_mem _ hname))
      rw [validateCount_faults_iff hv, hasNumber_iff hv]
    · have hzero : leastOf name = 0 := by
        revert name
        decide
      rw [validateCount_ofParts_iff, IsLargeEnough, hzero]
  rw [comparedNames, inTurn_cons, hasNumber_iff hdepth, isLargeEnough_iff hdepth]
  unfold validate
  rw [hlookup]
  show Faults (less depth 1 >>= _) ↔ _
  rw [faults_less_bind_iff ((Faults.throw _).bind fun _ h => by cases h), ← hcounts]
  refine and_congr_right fun _ => forall_congr' fun _ => ?_
  rw [if_neg Bool.false_ne_true, faults_bind_iff, hlookup']
  refine and_iff_left fun _ _ => ?_
  show Faults (if _ then _ else _)
  split
  · exact .throw _
  · exact .of_ok rfl

/-! ## Settings from a file -/

/-- Settings are made with all that is wrong reported only if nothing is wrong. -/
theorem ofValues_faults_iff :
    Faults (ofValues home (some directory) fields) ↔ IsLoadable fields := by
  rw [← exists_ofValues_iff]
  refine faults_iff_exists_of_misuse fun e he => ?_
  unfold ofValues at he
  rcases hdirectory : fields.get? "app_dir" with _ | v <;> rw [hdirectory] at he
  · dsimp only at he
    split at he
    · exact ⟨_, (Except.error.inj he).symm⟩
    · rw [ofTable_eq, bind_eq_error_iff] at he
      rcases he with he | ⟨out, -, he⟩
      · exact mapError_misuse_eq_error he
      · dsimp only at he
        split at he
        · rcases bind_eq_error_iff.1 he with he | ⟨file, -, he⟩
          · exact mapError_misuse_eq_error he
          · cases he
        · cases he
  · exact ⟨_, (Except.error.inj he).symm⟩

/-- Loads settings and checks them. -/
def loadChecked (home : String) (directory : Value) : Action FileTree SettingsError Settings := do
  let s ← load home directory
  MonadExcept.ofExcept s.validate
  pure s

/-- A text of a file of settings with which nothing is wrong that is not reported: it is not beyond
the limits of the reader, and if it holds an object, settings can be made of its values, and those
that are compared are numbers, up to the first one that is too small. -/
def IsReported (text : String) : Prop :=
  match Json.read (readable text) with
  | .error f => f.problem.isLimit = false
  | .ok (.object fields) => IsLoadable fields ∧
    InTurn (HasNumber (Table.merge defaults fields)) (IsLargeEnough (Table.merge defaults fields))
      comparedNames
  | .ok _ => True

theorem get?_of_expands (h : Expands m m') (hname : name ∉ ["output_dir", "grammar_file"]) :
    m'.get? name = m.get? name := by
  obtain ⟨houtput, hfile⟩ : name ≠ "output_dir" ∧ name ≠ "grammar_file" := by simpa using hname
  cases h with
  | output path _ => rw [Table.get?_insert_of_ne _ _ houtput]
  | both path file =>
    rw [Table.get?_insert_of_ne _ _ hfile, Table.get?_insert_of_ne _ _ houtput]

/-- Properties of the values of names alone. -/
theorem inTurn_congr {A' B' : α → Prop} (hA : ∀ a ∈ items, (A a ↔ A' a))
    (hB : ∀ a ∈ items, (B a ↔ B' a)) : InTurn A B items ↔ InTurn A' B' items := by
  induction items with
  | nil => exact iff_of_true inTurn_nil inTurn_nil
  | cons a items ih =>
    obtain ⟨hAa, hA⟩ := List.forall_mem_cons.1 hA
    obtain ⟨hBa, hB⟩ := List.forall_mem_cons.1 hB
    rw [inTurn_cons, inTurn_cons, hAa, hBa, ih hA hB]

/-- The usual values are there, whatever is written over them. -/
theorem exists_get?_merge_defaults (fields : Table String Value)
    (hname : name ∈ Table.keys defaults) :
    ∃ v, (Table.merge defaults fields).get? name = some v := by
  rcases hget : (Table.merge defaults fields).get? name with _ | v
  · have hkey := (Table.prefix_keys_merge List.prefix_rfl fields).subset hname
    obtain ⟨⟨key, v⟩, hmem, rfl⟩ := List.mem_map.1 hkey
    exact absurd hmem (Table.get?_eq_none_iff.1 hget v)
  · exact ⟨v, rfl⟩

/-- Settings that are made of named values are checked with all that is wrong reported if the values
of the usual names are numbers, up to the first one that is too small. -/
theorem validate_ofValues_faults_iff (h : ofValues home (some directory) fields = .ok s) :
    Faults s.validate ↔ InTurn (HasNumber (Table.merge defaults fields))
      (IsLargeEnough (Table.merge defaults fields)) comparedNames := by
  obtain ⟨m, rfl, hexpands⟩ := expands_of_ofValues h
  have hsame : ∀ name ∈ checkedNames, m.get? name = (Table.merge defaults fields).get? name := by
    intro name hname
    refine get?_of_expands hexpands ?_
    revert name
    decide
  have hpresent : ∀ name ∈ checkedNames, ∃ v, m.get? name = some v := by
    intro name hname
    rw [hsame name hname]
    refine exists_get?_merge_defaults fields ?_
    revert name
    decide
  have hchecked : ∀ name ∈ comparedNames, name ∈ checkedNames := by decide
  rw [validate_faults_iff hpresent]
  refine inTurn_congr (fun name hname => ?_) fun name hname => ?_
  · rw [HasNumber, hsame name (hchecked name hname), HasNumber]
  · rw [IsLargeEnough, hsame name (hchecked name hname), IsLargeEnough]

/-- **When loading and checking settings reports all that is wrong**, by the text of their file. -/
theorem loadChecked_faults_iff (hdirectory : directoryPath home directory = .ok path)
    (hne : path ≠ "") (hspelled : Text.IsSpelled path.toList)
    (ht : t.Holds (Path.place (filePath path)) text) (hhas : t.has (filePath path) = true) :
    ∃ result, (loadChecked home directory).runOn t = (result, t) ∧
      (Faults result ↔ IsReported text) := by
  have hload := load_of_has hdirectory hne hspelled hhas
  have hrun : (loadChecked home directory).runOn t =
      (readValues t (filePath path) >>= fun fields => ofValues home (some (.text path)) fields >>=
        fun s => s.validate >>= fun _ => .ok s, t) := by
    unfold loadChecked
    rw [runOn_bind, hload, ← bind_assoc]
    rcases readValues t (filePath path) >>= ofValues home (some (.text path)) with e | s
    · rfl
    · show Action.runOn (MonadExcept.ofExcept s.validate >>= fun _ => pure s) t = _
      rw [runOn_bind, runOn_ofExcept]
      show _ = (s.validate >>= fun _ => .ok s, t)
      rcases s.validate with e | u <;> rfl
  have hchecked : ∀ fields, Faults (ofValues home (some (.text path)) fields >>= fun s =>
      s.validate >>= fun _ => .ok s) ↔ IsLoadable fields ∧ InTurn
        (HasNumber (Table.merge defaults fields)) (IsLargeEnough (Table.merge defaults fields))
        comparedNames := by
    intro fields
    rw [faults_bind_iff, ofValues_faults_iff]
    refine and_congr_right fun hloadable => ?_
    obtain ⟨s, hs⟩ := exists_ofValues_iff.2 hloadable
    rw [← validate_ofValues_faults_iff hs, hs]
    simp only [Except.ok.injEq, forall_eq', faults_bind_iff]
    exact and_iff_left fun _ _ => .of_ok rfl
  refine ⟨_, hrun, ?_⟩
  rw [readValues_of_holds ht (locate_of_has hhas), IsReported]
  -- A text that is no JSON, or no object, is rejected before settings are made.
  cases Json.read (readable text) with
  | error f =>
    show Faults (Except.error _) ↔ f.problem.isLimit = false
    rcases hlimit : f.problem.isLimit
    · exact iff_of_true (.throw _) rfl
    · refine iff_of_false (fun h => ?_) (by simp)
      obtain ⟨c, hc⟩ := h _ rfl
      cases hc
  | ok v =>
    cases v with
    | object fields => exact hchecked fields
    | _ => exact iff_of_true (.throw _) trivial

/-- A file whose greatest depth is a word is loaded, and what the check finds is not reported. -/
theorem loadChecked_word_depth :
    ∃ t result, t.at? (filePath "c") =
        some (.file (fileText (.object [("max_depth", .text "x")]))) ∧
      (loadChecked "/home/user" (.text "c")).runOn t = (result, t) ∧ ¬ Faults result := by
  have hfound : ∀ text, (ofFiles [("c/config.json", some text)]).at? (filePath "c") =
      some (.file text) := fun _ => rfl
  have hplain : Text.IsSpelled "c".toList := (by decide : Text.IsAscii "c").isSpelled
  -- The text need not be worked out: it is read as it was written.
  generalize htext : fileText (.object [("max_depth", .text "x")]) = text
  have hhas : (ofFiles [("c/config.json", some text)]).has (filePath "c") = true := by
    rw [has, hfound, Option.isSome_some]
  have hdirectory : directoryPath "/home/user" (.text "c") = .ok "c" := rfl
  obtain ⟨result, hrun, hfaults⟩ := loadChecked_faults_iff hdirectory (by decide) hplain
    (holds_of_at? (hfound text)) hhas
  refine ⟨_, result, hfound text, hrun, fun h => ?_⟩
  have hword : Json.read (readable text) = .ok (.object [("max_depth", .text "x")]) := by
    rw [← htext, readable_fileText]
    exact isRepresentable_text (by decide) (Text.rejoined_of_ascii (by decide))
  have hreported := hfaults.1 h
  rw [IsReported, hword] at hreported
  obtain ⟨v, hv, hnumber⟩ := (inTurn_cons.1 hreported.2).1
  obtain rfl : Value.text "x" = v := Option.some.inj hv
  cases hnumber

end GrammarSuite.Settings
