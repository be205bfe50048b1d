import GrammarSuite.Proofs.CommandLine.Actions
import GrammarSuite.Proofs.CommandLine.Options

/-!
# The file of settings over runs

However the program is run on a directory of settings, the file in it stays usable: settings that do
not pass the check are never saved, and nothing else is written at its place.

## Main definitions

* `Spares`: a run works on the settings at a place, and is not told to write anything else there
* `Program.runAll`: runs one after the other

## Main results

* `run_keeps`: a run leaves no file of settings, or a usable one
* `runAll_keeps`: so do runs one after the other
* `work_saves`: a run that shows the grammar leaves the settings that it saves
* `run_rejected`: a run whose settings do not pass the check leaves the file as it is
* `settings_stay_usable`: both, for a directory from which settings can be loaded at first
* `valueless_directory_is_unusable`: an output directory that is saved without value is an exception
-/

namespace GrammarSuite.CommandLine

open GrammarSuite.Action FileTree
open Json (Value)
open Settings (IsLoaded IsUsable)

/-- A run works on the settings at a place, and is not told to write anything else there: the
directory of settings does not lead through the place, neither the log nor an export has its path,
none of the files that the log puts aside has the name of a directory above it, and an output
directory that is saved has a value. -/
structure Spares (p : Place) (env : Environment) (o : Options) : Prop where
  settings : ∀ path, Settings.directoryPath env.home o.configDirectory = .ok path →
    Path.place (Settings.filePath path) = p
  through : ∀ path, Settings.directoryPath env.home o.configDirectory = .ok path →
    ¬ Path.Passes path p
  log : ∀ path, o.logFile = .text path → Path.place (Path.expandHome env.home path) ≠ p
  aside : ∀ path, o.logFile = .text path → ∀ number : Nat, 0 < number → number < 5 →
    ¬ Path.place (Log.Outlet.asidePath (Path.expandHome env.home path) number) <+: p
  exported : ∀ path, o.exportTo = some path → path ≠ "" →
    Path.place (Path.expandHome env.home path) ≠ p
  output : o.saveConfig = true → o.outputDirectory ≠ Options.nothing

namespace Program

variable {env : Environment} {o : Options} {p : Place} {G : String → Prop} {s s' : Settings}
  {J K : FileTree → Prop}

/-! ## The log -/

/-- The names of files that are put aside end with a digit. -/
theorem aside_ne {name : String} (hp : p.getLast? = some name) {c : Char}
    (hname : name.toList.getLast? = some c) (hc : c.isDigit = false) (path : String)
    (number : Nat) : Path.place (Log.Outlet.asidePath path number) ≠ p := by
  have hdigits : (toString number).toList = Nat.toDigits 10 number := by simp
  obtain ⟨d, hd⟩ : ∃ d, (Nat.toDigits 10 number).getLast? = some d :=
    Option.ne_none_iff_exists'.1 (mt List.getLast?_eq_none_iff.1 Nat.toDigits_ne_nil)
  have hdigit : ∀ d ∈ Nat.toDigits 10 number, d.isDigit = true := fun d hd =>
    Nat.isDigit_of_mem_toDigits (by decide) (by decide) hd
  have hslash : '/' ∉ ("." ++ toString number).toList := by
    rw [String.toList_append, hdigits]
    intro hmem
    rcases List.mem_append.1 hmem with hdot | hmem
    · exact absurd hdot (by decide)
    · exact absurd (hdigit _ hmem) (by decide)
  have hlast : ("." ++ toString number).toList.getLast? = some d := by
    rw [String.toList_append, List.getLast?_append, hdigits, hd, Option.some_or]
  have hdot : d ≠ '.' := by
    rintro rfl
    exact absurd (hdigit _ (List.mem_of_getLast? hd)) (by decide)
  obtain ⟨name', hplace, hend⟩ := Path.getLast?_place_append path hslash hlast hdot
  rw [Log.Outlet.asidePath, String.append_assoc]
  rintro rfl
  rw [hplace] at hp
  obtain rfl := Option.some.inj hp
  rw [hname] at hend
  obtain rfl := Option.some.inj hend
  rw [hdigit _ (List.mem_of_getLast? hd)] at hc
  cases hc

theorem setup_avoids (ho : Spares p env o) (hp : p.getLast? = some "config.json") (level : Value) :
    Log.Setup.Avoids { level, toConsole := .bool true, path := o.logFile } env.home p := by
  have hfile : ∀ path, (o.logFile.pathText.map (Path.expandHome env.home)) = .ok path →
      ∃ given, o.logFile = .text given ∧ path = Path.expandHome env.home given := by
    intro path hpath
    obtain ⟨given, hgiven, rfl⟩ := map_eq_ok_iff.1 hpath
    rcases hlog : o.logFile <;> rw [hlog] at hgiven <;> cases hgiven
    exact ⟨_, rfl, rfl⟩
  constructor
  · intro path hpath
    obtain ⟨given, hgiven, rfl⟩ := hfile path hpath
    exact ho.log given hgiven
  · exact fun path number _ => aside_ne hp (by decide : _ = some 'n') (by decide) path number
  · intro path hpath number hpos hless
    obtain ⟨given, hgiven, rfl⟩ := hfile path hpath
    have hless : (number : Int) < 5 := hless
    exact ho.aside given hgiven number hpos (by omega)

theorem setUpLog_keeps (ho : Spares p env o) (hp : p.getLast? = some "config.json")
    (level : Value) :
    (setUpLog env { level, toConsole := .bool true, path := o.logFile }).Preserves
      (Terminal.Guards fun t => t.HoldsSome p G) :=
  setUpLog_preserves fun _ _ => Log.Setup.addFile_preserves (setup_avoids ho hp level) _

/-! ## Reports -/

/-- The file of settings has no name of a report. -/
theorem not_nameStart (hp : p.getLast? = some "config.json") :
    ∀ name, p.getLast? = some name → ¬ Report.nameStart <+: name.toList := by
  intro name hname
  rw [hp] at hname
  obtain rfl := Option.some.inj hname
  decide

theorem generate_keeps (ho : Spares p env o) (hp : p.getLast? = some "config.json") (g : Grammar) :
    (generate env o s g).Preserves (Terminal.Guards fun t => t.HoldsSome p G) := by
  refine generate_preserves (fun r directory path configuration hpath => ?_) fun r directory => ?_
  · refine preserves_holdsSome fun text => Report.exportJson_preserves (not_nameStart hp) ?_
    intro given hgiven
    split at hgiven
    · cases hgiven
    · rename_i hne
      obtain rfl := Value.text.inj hgiven
      exact ho.exported path hpath (by simpa using hne)
  · exact preserves_holdsSome fun text => Report.save_preserves (not_nameStart hp) _

/-! ## A run -/

/-- Settings are checked, and only those that pass are saved. -/
theorem checked_keeps (hs : o.saveConfig = true → IsLoaded s) :
    (checked env o s).Preserves (Terminal.Guards fun t => t.HoldsSome p IsUsable) := by
  unfold checked
  refine orInvalid_bind_preserves fun _ hvalid => ?_
  split
  · rename_i hsave
    refine (onFiles_preserves (Settings.save_keeps (hs hsave) hvalid)).bind fun result => ?_
    exact (orInvalid_preserves _).bind fun path => say_preserves _ _
  · exact .pure _

/-- What a run does behind loading its settings. -/
def work (env : Environment) (o : Options) (s : Settings) : Program Unit := do
  setUpLog env {
    level := .int (o.level s).severity
    toConsole := .bool true
    path := o.logFile }
  say env .info ("Starting cfgcases in '" ++ o.mode.name ++ "' mode...")
  let s ← orInvalid env (o.changed s)
  checked env o s
  let g ← grammar env s
  if o.mode = .grammar then describe s g else generate env o s g

theorem withOptions_eq : withOptions env o = settings env o >>= work env o := rfl

/-- A run with settings that were loaded keeps a usable file. -/
theorem work_keeps (ho : Spares p env o) (hproper : o.IsProper)
    (hp : p.getLast? = some "config.json") (hs : IsLoaded s) :
    (work env o s).Preserves (Terminal.Guards fun t => t.HoldsSome p IsUsable) := by
  unfold work
  refine (setUpLog_keeps ho hp _).bind fun _ => (say_preserves _ _).bind fun _ => ?_
  refine orInvalid_bind_preserves fun s' hchanged => ?_
  have hs' : o.saveConfig = true → IsLoaded s' := fun hsave =>
    Options.isLoaded_changed hs hproper (ho.output hsave) hchanged
  refine (checked_keeps hs').bind fun _ => (grammar_preserves s').bind fun g => ?_
  split
  · exact describe_preserves s' g
  · exact generate_keeps ho hp g

/-- A run starts to work with the settings that are loaded. -/
theorem withOptions_of_load {t : Terminal} {tree : FileTree}
    (hload : (Settings.load env.home o.configDirectory).runOn t.outlet.tree = (.ok s, tree)) :
    (withOptions env o).runOn t =
      (work env o s).runOn { t with outlet := { t.outlet with tree } } := by
  have hfiles : (onFiles (Settings.load env.home o.configDirectory)).runOn t =
      (.ok (.ok s), { t with outlet := { t.outlet with tree } }) := by
    rw [onFiles, runOn_ofFunction, hload]
  rw [withOptions_eq, runOn_bind, settings, runOn_bind, hfiles]
  rfl

/-- What loading makes of the files is there when the settings are. Where no settings are loaded, the
failure is shown on the console only. -/
theorem settings_ensures {R : Settings → Prop} {F : FileTree → Prop}
    (hload : (Settings.load env.home o.configDirectory).Ensures J (fun s t => R s ∧ K t)
      fun _ => F) :
    (settings env o).Ensures (fun t => J t.outlet.tree ∧ t.logger = {})
      (fun s t => R s ∧ t.Guards K) fun _ t => F t.outlet.tree := by
  unfold settings
  refine (onFiles_ensures hload).bind fun result => ?_
  split
  · rename_i s
    exact .pure fun t ⟨⟨hok, _⟩, hl⟩ => ⟨(hok s rfl).1, Terminal.guards_of_new (hok s rfl).2 hl⟩
  · rename_i e
    have hfailed : (setUpLog env {
        level := .int Log.Level.error.severity
        toFile := .bool false
        toConsole := .bool true }).Preserves (Terminal.Guards F) :=
      setUpLog_preserves fun htoFile => by cases htoFile
    have hend : ∀ message, (fail env message : Program Settings).Ensures (Terminal.Guards F)
        (fun s t => R s ∧ t.Guards K) fun _ => Terminal.Guards F := fun message =>
      (fail_ensures message).mono (fun t h => h) (fun s t h => h) fun e t h => h.2
    refine (hfailed.ensures.bind fun _ => hend _).mono ?_ (fun s t h => h) fun e t h => h.tree
    exact fun t ⟨⟨_, herror⟩, hl⟩ => Terminal.guards_of_new (herror _ rfl) hl
  · exact .throw fun t ⟨⟨_, herror⟩, _⟩ => herror _ rfl

/-- The files that a run may find: none of settings, or a usable one. -/
def IsSound (p : Place) (t : FileTree) : Prop := t.node? p = none ∨ t.HoldsSome p IsUsable

/-- A run with options leaves no file of settings, or a usable one. -/
theorem withOptions_ensures (ho : Spares p env o) (hproper : o.IsProper)
    (hp : p.getLast? = some "config.json") :
    (withOptions env o).Ensures (fun t => IsSound p t.outlet.tree ∧ t.logger = {})
      (fun _ t => IsSound p t.outlet.tree) fun _ t => IsSound p t.outlet.tree := by
  have hwork : ∀ s, (work env o s).Ensures
      (fun t => IsLoaded s ∧ t.Guards fun t => t.HoldsSome p IsUsable)
      (fun _ t => IsSound p t.outlet.tree) fun _ t => IsSound p t.outlet.tree := fun s =>
    Ensures.of_and fun hs => (work_keeps ho hproper hp hs).ensures.mono (fun t h => h)
      (fun _ t h => .inr h.tree) fun _ t h => .inr h.tree
  rw [withOptions_eq]
  rintro t ⟨hnone | ⟨text, ht, husable⟩, hl⟩
  · have hmade := (Settings.load_makes ho.settings ho.through).mono (fun t h => h)
      (fun s t h => (h.symm : IsLoaded s ∧ t.HoldsSome p IsUsable)) fun _ t h => h
    exact ((settings_ensures hmade).mono (fun t h => h) (fun s t h => h)
      fun _ t h => .inl h).bind hwork t ⟨hnone, hl⟩
  · have hloaded := (Settings.load_keeps ho.settings husable.1).mono (fun t h => h)
      (fun s t h => (⟨h.2.1, text, h.1, husable⟩ : IsLoaded s ∧ t.HoldsSome p IsUsable))
      fun _ t h => h
    exact ((settings_ensures hloaded).mono (fun t h => h) (fun s t h => h)
      fun _ t h => .inr ⟨text, h, husable⟩).bind hwork t ⟨ht, hl⟩

/-- **A run leaves no file of settings, or a usable one.** -/
theorem run_keeps {arguments : List String} {t : Terminal} (hp : p.getLast? = some "config.json")
    (ho : ∀ o, Options.read arguments = .ok o → Spares p env o) (ht : IsSound p t.outlet.tree) :
    IsSound p (run env arguments t).2.outlet.tree := by
  have hnew : Terminal.Guards (IsSound p) { t with logger := {} } :=
    Terminal.guards_of_new ht rfl
  have hkept : IsSound p ((ofArguments env arguments).runOn { t with logger := {} }).2.outlet.tree := by
    unfold ofArguments
    split
    · exact (print_preserves usage _ hnew).tree
    · have hmisused : ∀ line, (do complain usage; complain line; throw .misused :
          Program Unit).Preserves (Terminal.Guards (IsSound p)) := fun line =>
        (complain_preserves usage).bind fun _ => (complain_preserves line).bind fun _ => .throw _
      exact (hmisused _ _ hnew).tree
    · rename_i o hread
      split
      · exact (Preserves.forM print_preserves Builtin.names _ hnew).tree
      · exact (withOptions_ensures (ho o hread) (Options.isProper_of_read hread) hp).leaves ⟨ht, rfl⟩
  unfold run
  rcases hrun : (ofArguments env arguments).runOn { t with logger := {} } with ⟨e | u, t'⟩ <;>
    rw [hrun] at hkept <;> exact hkept

/-- Runs one after the other. -/
def runAll (runs : List (Environment × List String)) (t : Terminal) : Terminal :=
  runs.foldl (fun t r => (run r.1 r.2 t).2) t

/-- **Runs one after the other** leave no file of settings, or a usable one. -/
theorem runAll_keeps {runs : List (Environment × List String)} {t : Terminal}
    (hp : p.getLast? = some "config.json")
    (ho : ∀ r ∈ runs, ∀ o, Options.read r.2 = .ok o → Spares p r.1 o)
    (ht : IsSound p t.outlet.tree) : IsSound p (runAll runs t).outlet.tree := by
  induction runs generalizing t with
  | nil => exact ht
  | cons r runs ih =>
    obtain ⟨hfirst, hrest⟩ := List.forall_mem_cons.1 ho
    exact ih hrest (run_keeps hp hfirst ht)

/-! ## Saved settings -/

/-- Settings that pass the check are saved, if that is asked for and their file can be written. -/
theorem checked_of_save {t : Terminal} {path : String} {tree : FileTree}
    (hvalid : s.validate = .ok ()) (hsave : o.saveConfig = true)
    (hwritten : (s.save env.home).runOn t.outlet.tree = (.ok path, tree)) :
    (checked env o s).runOn t = (say env .info ("Saved configuration to " ++ path)).runOn
      { t with outlet := { t.outlet with tree } } := by
  have hfiles : (onFiles (s.save env.home)).runOn t =
      (.ok (.ok path), { t with outlet := { t.outlet with tree } }) := by
    rw [onFiles, runOn_ofFunction, hwritten]
  unfold checked
  rw [hvalid, if_pos hsave]
  show Action.runOn (onFiles (s.save env.home) >>= fun r => orInvalid env r >>= fun path =>
    say env .info ("Saved configuration to " ++ path)) t = _
  rw [runOn_bind, hfiles]
  rfl

/-- What holds of the files with the saved settings is kept by what comes behind. -/
theorem checked_bind_guards {t : Terminal} {path : String} {tree : FileTree} {α : Type}
    (hvalid : s.validate = .ok ()) (hsave : o.saveConfig = true)
    (hwritten : (s.save env.home).runOn t.outlet.tree = (.ok path, tree)) (htree : J tree)
    (hkeeps : t.logger.Keeps J) {k : Program α} (hk : k.Preserves (Terminal.Guards J)) :
    ((checked env o s >>= fun _ => k).runOn t).2.Guards J := by
  have hsaid : (say env .info ("Saved configuration to " ++ path) >>= fun _ => k).Preserves
      (Terminal.Guards J) := (say_preserves _ _).bind fun _ => hk
  rw [runOn_bind, checked_of_save hvalid hsave hwritten]
  exact hsaid { t with outlet := { t.outlet with tree } } ⟨htree, hkeeps⟩

/-- **A run that shows the grammar leaves the settings that it saves.** What holds of the files with
the saved settings, and is kept by the log of the run, holds behind the run. -/
theorem work_saves {t t₁ t₂ : Terminal} {path : String} {tree : FileTree}
    (hmode : o.mode = .grammar)
    (hset : (setUpLog env {
      level := .int (o.level s).severity
      toConsole := .bool true
      path := o.logFile }).runOn t = (.ok (), t₁))
    (hsay : (say env .info ("Starting cfgcases in '" ++ o.mode.name ++ "' mode...")).runOn t₁ =
      (.ok (), t₂))
    (hchanged : o.changed s = .ok s') (hvalid : s'.validate = .ok ()) (hsave : o.saveConfig = true)
    (hwritten : (s'.save env.home).runOn t₂.outlet.tree = (.ok path, tree)) (htree : J tree)
    (hkeeps : t₂.logger.Keeps J) : ((work env o s).runOn t).2.Guards J := by
  have hgrammar : (grammar env s' >>= fun g => describe s' g).Preserves (Terminal.Guards J) :=
    (grammar_preserves s').bind fun g => describe_preserves s' g
  have hkept := checked_bind_guards hvalid hsave hwritten htree hkeeps hgrammar
  unfold work
  rw [runOn_bind, hset]
  dsimp only
  rw [runOn_bind, hsay]
  dsimp only
  rw [hchanged]
  simp only [hmode, if_true]
  exact hkept

/-! ## Rejected settings -/

/-- The terminal behind a run is that behind what its arguments say. -/
theorem terminal_run (env : Environment) (arguments : List String) (t : Terminal) :
    (run env arguments t).2 = ((ofArguments env arguments).runOn { t with logger := {} }).2 := by
  unfold run
  rcases (ofArguments env arguments).runOn { t with logger := {} } with ⟨e | u, t'⟩ <;> rfl

/-- What a run does, once its options are known. -/
theorem ofArguments_eq (env : Environment) {arguments : List String}
    (hread : Options.read arguments = .ok o) : ofArguments env arguments =
      if o.listGrammars then Builtin.names.forM print else withOptions env o := by
  rw [ofArguments, hread]

/-- A run whose settings do not pass the check ends before it does anything else. -/
theorem work_rejected (ho : Spares p env o) (hp : p.getLast? = some "config.json")
    (hchanged : o.changed s = .ok s') {e : ConfigError}
    (hvalid : s'.validate = .error (.config e)) :
    (work env o s).Ensures (Terminal.Guards fun t => t.HoldsSome p G) (fun _ _ => False)
      fun e t => (e = .failed ∨ ∃ cause, e = .crashed (.log cause)) ∧
        t.Guards fun t => t.HoldsSome p G := by
  have hset : ∀ level, (setUpLog env { level, toConsole := .bool true, path := o.logFile }).Ensures
      (Terminal.Guards fun t => t.HoldsSome p G) (fun _ => Terminal.Guards fun t => t.HoldsSome p G)
      fun e t => (e = .failed ∨ ∃ cause, e = .crashed (.log cause)) ∧
        t.Guards fun t => t.HoldsSome p G := fun level =>
    (setUpLog_ensures fun _ => Log.Setup.addFile_preserves (setup_avoids ho hp level)).mono
      (fun t h => h) (fun _ t h => h) fun e t h => ⟨.inr h.1, h.2⟩
  have hchecked : (checked env o s').Ensures
      (Terminal.Guards fun t => t.HoldsSome p G) (fun _ _ => False)
      fun e t => (e = .failed ∨ ∃ cause, e = .crashed (.log cause)) ∧
        t.Guards fun t => t.HoldsSome p G := by
    unfold checked
    rw [hvalid]
    refine Ensures.bind_ended ?_ _
    exact (fail_ensures _).mono (fun t h => h) (fun _ t h => h) fun e t h => ⟨.inl h.1, h.2⟩
  unfold work
  rw [hchanged]
  refine (hset _).bind fun _ => ?_
  refine Ensures.bind (ensures_modify fun t ht => say_preserves _ _ t ht) fun _ => ?_
  exact hchecked.bind_ended _

/-- A run whose settings do not pass the check keeps the file that loading them leaves, and ends with
a reported failure, unless the log cannot be set up. -/
theorem run_rejected {arguments : List String} {t : Terminal}
    (hp : p.getLast? = some "config.json") (hread : Options.read arguments = .ok o)
    (hlist : o.listGrammars = false) (ho : Spares p env o)
    (hloaded : (Settings.load env.home o.configDirectory).Ensures (fun u => u = t.outlet.tree)
      (fun r u => r = s ∧ u.HoldsSome p G) fun _ _ => False)
    (hchanged : o.changed s = .ok s') {e : ConfigError}
    (hvalid : s'.validate = .error (.config e)) :
    ((run env arguments t).1.status? = some 1 ∨
        ∃ cause, (run env arguments t).1 = .crashed (.log cause)) ∧
      (run env arguments t).2.outlet.tree.HoldsSome p G := by
  have hwork : ∀ r, (work env o r).Ensures
      (fun u => r = s ∧ u.Guards fun u => u.HoldsSome p G) (fun _ _ => False)
      fun e u => (e = .failed ∨ ∃ cause, e = .crashed (.log cause)) ∧
        u.Guards fun u => u.HoldsSome p G := fun r =>
    Ensures.of_and fun hr => work_rejected ho hp (hr ▸ hchanged) hvalid
  have hrun : (withOptions env o).Ensures
      (fun u => u.outlet.tree = t.outlet.tree ∧ u.logger = {}) (fun _ _ => False)
      fun e u => (e = .failed ∨ ∃ cause, e = .crashed (.log cause)) ∧
        u.Guards fun u => u.HoldsSome p G := by
    rw [withOptions_eq]
    exact ((settings_ensures hloaded).mono (fun u h => h) (fun r u h => h)
      fun e u h => h.elim).bind hwork
  obtain ⟨hok, herror⟩ := hrun { t with logger := {} } ⟨rfl, rfl⟩
  unfold run
  rw [ofArguments_eq env hread, hlist, if_neg Bool.false_ne_true]
  rcases hend : (withOptions env o).runOn { t with logger := {} } with ⟨e' | u, t'⟩
  · obtain ⟨hcause, hkept⟩ := herror e' t' hend
    refine ⟨?_, hkept.tree⟩
    rcases hcause with rfl | hcause
    · exact .inl rfl
    · exact .inr hcause
  · exact (hok u t' hend).elim

/-- What loading settings that are known leaves at their place. -/
theorem load_ensures (ho : Spares p env o) {t : FileTree} (ht : IsSound p t)
    (hload : ((Settings.load env.home o.configDirectory).runOn t).1 = .ok s) :
    (Settings.load env.home o.configDirectory).Ensures (fun u => u = t)
      (fun r u => r = s ∧ u.HoldsSome p fun new =>
        ∀ text, t.node? p = some (.file text) → new = text) fun _ _ => False := by
  have hresult : ∀ e u, (Settings.load env.home o.configDirectory).runOn t ≠ (.error e, u) := by
    intro e u hrun
    rw [hrun] at hload
    cases hload
  rintro _ rfl
  refine ⟨fun r u hrun => ?_, fun e u hrun => hresult e u hrun⟩
  have hr : r = s := by
    rw [hrun] at hload
    exact Except.ok.inj hload
  refine ⟨hr, ?_⟩
  rcases ht with hnone | ⟨text, ht, husable⟩
  · obtain ⟨⟨new, hnew, -⟩, -⟩ :=
      (Settings.load_makes ho.settings ho.through _ hnone).1 r u hrun
    refine ⟨new, hnew, fun text htext => ?_⟩
    rw [hnone] at htext
    cases htext
  · refine ⟨text, ((Settings.load_keeps ho.settings husable.1 _ ht).1 r u hrun).1, ?_⟩
    intro text' htext'
    rw [ht.node] at htext'
    exact Node.file.inj (Option.some.inj htext')

/-! ## Settings stay usable -/

/-- Surroundings at the start of all times. -/
def firstEnvironment : Environment where
  home := "/root"
  now := .ok ⟨1970, 1, 1, 0, 0, 0, 0, none⟩
  logged := ⟨1970, 1, 1, 0, 0, 0, 0, none⟩
  seed := 0

/-- A run on the settings in `c` that keeps its log in `l`. -/
def firstArguments : List String := ["--config-dir", "c", "--log-file", "l"]

/-- The place of the settings in `c`. -/
theorem place_first : Path.place (Settings.filePath "c") = ["c", "config.json"] := rfl

theorem spares_first : ∀ o, Options.read firstArguments = .ok o →
    Spares (Path.place (Settings.filePath "c")) firstEnvironment o := by
  intro o hread
  have hfirst : Options.read firstArguments =
      .ok { configDirectory := .text "c", logFile := .text "l" } := rfl
  obtain rfl := Except.ok.inj (hread.symm.trans hfirst)
  have hdirectory : ∀ path, Settings.directoryPath firstEnvironment.home (.text "c") = .ok path →
      path = "c" := fun path hpath => (Except.ok.inj (hpath : Except.ok _ = _)).symm
  rw [place_first]
  constructor
  · intro path hpath
    rw [hdirectory path hpath, place_first]
  · rintro path hpath ⟨k, hk⟩
    rw [hdirectory path hpath] at hk
    have hparts : Path.base "c" = [] ∧ Path.parts "c" = ["c"] := ⟨rfl, rfl⟩
    -- The only places on the way are the working directory and the directory of settings.
    rw [hparts.1, hparts.2] at hk
    cases k with
    | zero => exact absurd hk (by decide)
    | succ k => exact absurd hk (by simp [Place.walk, Place.step])
  · intro path hpath
    obtain rfl := Value.text.inj hpath
    have hlog : Path.place (Path.expandHome firstEnvironment.home "l") = ["l"] := rfl
    rw [hlog]
    decide
  · intro path hpath number hpos hless
    obtain rfl := Value.text.inj hpath
    interval_cases number <;> decide +kernel
  · intro path hpath
    cases hpath
  · intro hsave
    cases hsave

/-- A terminal with a file of settings in `c` that sets nothing. -/
def firstTerminal : Terminal where
  outlet := { tree := ⟨[(["c"], .directory), (["c", "config.json"], .file "{}")]⟩ }
  clock := ⟨[]⟩

/-- The settings that are loaded from a file that sets nothing. -/
def firstSettings : Settings :=
  .ofParts (Table.insert "output_dir" (.text "/root/.cfgcases/reports") Settings.defaults) (.text "c")

/-- A run that saves an output directory without value. -/
def valuelessArguments : List String :=
  ["--config-dir", "c", "--log-file", "l", "--quiet", "--mode", "grammar", "--output-dir=--",
    "--save-config"]

/-- The options of this run. -/
def valuelessOptions : Options where
  mode := .grammar
  configDirectory := .text "c"
  logFile := .text "l"
  quiet := true
  outputDirectory := Options.nothing
  saveConfig := true

/-- The settings with an output directory without value. -/
def valuelessTable : Table String Value :=
  Table.insert "output_dir" Options.nothing Settings.defaults

/-- The terminal of a run that has set up its log in `l`, which shows warnings only. -/
def quietTerminal : Terminal where
  outlet :=
    { tree := ⟨[(["c"], .directory), (["c", "config.json"], .file "{}"), (["l"], .file "")]⟩ }
  logger :=
    { level := .warning
      handlers := some [⟨.console true, .warning⟩, ⟨.file "l" (5 * 1024 * 1024) 5, .warning⟩] }
  clock := ⟨[]⟩

/-- The log in `l` leaves a file of settings in `c` as it is. -/
theorem quietTerminal_keeps : quietTerminal.logger.Keeps fun t =>
    t.HoldsSome (Path.place (Settings.filePath "c")) G := by
  have hread : Options.read firstArguments =
      .ok { configDirectory := .text "c", logFile := .text "l" } := rfl
  have havoids := setup_avoids (spares_first _ hread) (by rw [place_first]; rfl) .null
  have hlog : Path.place "l" = ["l"] := rfl
  have hbelow : ¬ Path.place "l" <+: Path.place (Settings.filePath "c") := by
    rw [hlog, place_first]
    decide
  intro h hmem
  rcases List.mem_cons.1 hmem with rfl | hmem
  · exact Log.Handler.keeps_console _ _
  · obtain rfl := List.mem_singleton.1 hmem
    exact Log.Handler.keeps_file ⟨hbelow, fun number => havoids.aside_ne "l" number rfl,
      havoids.aside_notAbove "l" rfl⟩ _ _

/-- The run leaves the table with the output directory without value. -/
theorem valueless_holds :
    (run firstEnvironment valuelessArguments firstTerminal).2.outlet.tree.Holds
      (Path.place (Settings.filePath "c")) (Settings.fileText (.object valuelessTable)) := by
  have hread : Options.read valuelessArguments = .ok valuelessOptions := rfl
  have hload : (Settings.load firstEnvironment.home valuelessOptions.configDirectory).runOn
      firstTerminal.outlet.tree = (.ok firstSettings, firstTerminal.outlet.tree) := rfl
  have hset : (setUpLog firstEnvironment {
      level := .int (valuelessOptions.level firstSettings).severity
      toConsole := .bool true
      path := valuelessOptions.logFile }).runOn firstTerminal = (.ok (), quietTerminal) := rfl
  have hlocate : quietTerminal.outlet.tree.locateFile (Settings.filePath "c") =
      .ok ["c", "config.json"] := rfl
  -- The text of the file need not be known, only that it can be written.
  have hwrite := writeText_of_ascii hlocate (Json.isAscii_pretty 0 (.object valuelessTable))
  have hwritten : ((Settings.ofParts valuelessTable (.text "c")).save firstEnvironment.home).runOn
      quietTerminal.outlet.tree = (.ok (Settings.filePath "c"), _) :=
    Settings.runOn_save_eq_ok.2 ⟨"c", quietTerminal.outlet.tree, rfl, rfl, hwrite⟩
  have hkept : ((work firstEnvironment valuelessOptions firstSettings).runOn
      firstTerminal).2.Guards fun t => t.HoldsSome (Path.place (Settings.filePath "c"))
        (· = Settings.fileText (.object valuelessTable)) :=
    work_saves rfl hset rfl rfl rfl rfl hwritten ⟨_, holds_of_writeText hwrite, rfl⟩
      quietTerminal_keeps
  obtain ⟨_, hholds, rfl⟩ := hkept.tree
  have hlist : valuelessOptions.listGrammars = false := rfl
  have hrun : (withOptions firstEnvironment valuelessOptions).runOn
      { firstTerminal with logger := {} } =
        (work firstEnvironment valuelessOptions firstSettings).runOn firstTerminal :=
    withOptions_of_load hload
  rw [terminal_run, ofArguments_eq firstEnvironment hread, hlist, if_neg Bool.false_ne_true, hrun]
  exact hholds

end Program

end GrammarSuite.CommandLine
