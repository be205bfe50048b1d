import GrammarSuite.Proofs.CommandLine.Settings
import GrammarSuite.Proofs.Metrics.Account
import GrammarSuite.Proofs.Run.Failures
import GrammarSuite.Proofs.Settings.Typed

/-!
# How a run of the program fails

Settings of the usual kinds, and options that have values, lead to a run that ends well or reports
what went wrong, with few exceptions. Two of them are about the grammar: a name that no built-in
grammar has, and a directory in the place of a grammar file. The others are about what is done besides
loading settings and a grammar and making cases, which is to set up the log, to save the settings and
to publish the cases, or about numbers that are out of range.

## Main definitions

* `Options.HasValues`: no option lacks its value
* `Program.publish`: what a run does with its cases
* `Escapes`: the failures that a run does not report

## Main results

* `Options.isTyped_changed`: settings of the usual kinds stay so when options change them
* `Program.grammar_ensures`, `Program.outcome_ensures`: the stages of a run
* `Program.run_reports`: a run ends well, reports its failure, or has one that escapes
-/

/-! ## Grammars in files -/

namespace GrammarSuite.Grammar

open GrammarSuite.Action FileTree

variable {home path : String} {t : FileTree} {g : Grammar}

theorem exists_ofText_of_load (h : load home t path = .ok g) :
    ∃ text name, ofText text name = .ok g := by
  unfold load at h
  dsimp only at h
  split at h
  · cases h
  · split at h
    · cases h
    · exact ⟨_, _, mapError_eq_ok_iff.1 h⟩

/-- A directory cannot be read. -/
theorem load_of_directory (h : t.hasDirectory (Path.expandHome home path) = true) :
    load home t path = .error (.file ⟨.isDirectory, Path.expandHome home path⟩) := by
  have hnode : t.at? (Path.expandHome home path) = some .directory := eq_of_beq h
  have hread : t.readText (Path.expandHome home path) =
      .error ⟨.isDirectory, Path.expandHome home path⟩ := by
    obtain ⟨p, hlocate, hplace⟩ := at?_eq_some_iff.1 hnode
    rw [readText, locateFile, hlocate]
    simp [hplace, bind, Except.bind]
  unfold load
  dsimp only
  rw [has, hnode, hread]
  rfl

/-- A file that is there can be read, unless it is a directory. -/
theorem directory_of_load {f : FileError} (h : load home t path = .error (.file f)) :
    f = ⟨.isDirectory, Path.expandHome home path⟩ ∧
      t.hasDirectory (Path.expandHome home path) = true := by
  rcases hnode : t.at? (Path.expandHome home path) with _ | (text | _)
  · unfold load at h
    simp [has, hnode] at h
  · obtain ⟨p, hlocate, hplace⟩ := at?_eq_some_iff.1 hnode
    have hread : t.readText (Path.expandHome home path) =
        .ok (String.ofList (Text.normalizeNewlines text.toList)) := by
      rw [readText, locateFile, hlocate]
      simp [hplace, bind, Except.bind]
    unfold load at h
    dsimp only at h
    rw [has, hnode, hread] at h
    dsimp only at h
    rcases hof : ofText (String.ofList (Text.normalizeNewlines text.toList))
      (.text (Path.stem (Path.fileName (Path.expandHome home path)))) with e | g <;>
      rw [hof] at h <;> cases h
  · have hdirectory : t.hasDirectory (Path.expandHome home path) = true := by
      rw [hasDirectory, hnode]
      rfl
    obtain rfl : _ = f := by simpa using (load_of_directory hdirectory).symm.trans h
    exact ⟨rfl, hdirectory⟩

end GrammarSuite.Grammar

namespace GrammarSuite.CommandLine

open GrammarSuite.Action FileTree
open Json (Value)
open Settings (ofParts)

/-! ## Options with values -/

namespace Options

variable {o o' : Options} {m : Table String Value} {directory : Value} {s s' : Settings}

/-- No option that a run is made from lacks its value. -/
structure HasValues (o : Options) : Prop where
  changes : ∀ f ∈ o.changes, f.2 ≠ nothing
  input : o.input ≠ nothing
  kinds : nothing ∉ o.kinds

/-- The input is a text, and the kinds have names, unless a value is missing. -/
structure IsNamed (o : Options) : Prop where
  input : IsText o.input
  kinds : ∀ v ∈ o.kinds, v = nothing ∨ ∃ kind : ExtremeKind, v = .text kind.name

theorem IsNamed.withFlag {s : Switch} (ho : o.IsNamed) (h : o.withFlag s = .ok o') :
    o'.IsNamed := by
  unfold Options.withFlag at h
  split at h <;> cases h <;> exact { ho with }

theorem isNamed_of_choiceOf {s : Switch} {v : Option String} {w : Value}
    (h : choiceOf s (fun name => (ExtremeKind.ofName? name).isSome) v = .ok w) :
    w = nothing ∨ ∃ kind : ExtremeKind, w = .text kind.name := by
  cases v with
  | none => exact .inl (Except.ok.inj h).symm
  | some v =>
    obtain ⟨name, hname, rfl⟩ := map_eq_ok_iff.1 h
    split at hname
    · rename_i hkind
      obtain rfl := Except.ok.inj hname
      obtain ⟨kind, hkind⟩ := Option.isSome_iff_exists.1 hkind
      refine .inr ⟨kind, ?_⟩
      have hname := List.find?_some (show ExtremeKind.all.find? (·.name = v) = some kind from hkind)
      rw [of_decide_eq_true hname]
    · cases hname

theorem IsNamed.withValue {s : Switch} {v : Option String} (ho : o.IsNamed)
    (h : o.withValue s v = .ok o') : o'.IsNamed := by
  cases s with
  | kind =>
    obtain ⟨w, hw, rfl⟩ := map_eq_ok_iff.1 h
    refine { ho with kinds := List.forall_mem_append.2 ⟨ho.kinds, ?_⟩ }
    exact List.forall_mem_singleton.2 (isNamed_of_choiceOf hw)
  | input =>
    obtain rfl := Except.ok.inj h
    exact { ho with input := isText_textOf v }
  | mode | grammar | valid | invalid | extreme | depth | seed =>
    obtain ⟨w, -, rfl⟩ := map_eq_ok_iff.1 h
    exact { ho with }
  | logLevel =>
    obtain ⟨w, -, hw⟩ := bind_eq_ok_iff.1 h
    obtain rfl := Except.ok.inj hw
    exact { ho with }
  | grammarFile | identifier | exportTo | outputDirectory | configDirectory | logFile =>
    obtain rfl := Except.ok.inj h
    exact { ho with }
  | help | listGrammars | report | saveConfig | quiet | tui => cases h

theorem isNamed_of_read {arguments : List String} (h : read arguments = .ok o) : o.IsNamed := by
  unfold read at h
  split at h
  · cases h
  · exact readWords_keeps (fun ho h => ho.withFlag h) (fun ho h => ho.withValue h)
      ⟨.inl rfl, by simp⟩ h

/-- Kinds that have values can be told. -/
theorem exists_kinds (ho : o.IsNamed) (hvalues : o.HasValues) :
    ∃ kinds, o.kinds.mapM ExtremeKind.ofValue = .ok kinds ∧ kinds.length = o.kinds.length := by
  have hnamed : ∀ v ∈ o.kinds, ∃ kind : ExtremeKind, v = .text kind.name := fun v hv =>
    (ho.kinds v hv).resolve_left fun h => hvalues.kinds (h ▸ hv)
  generalize o.kinds = vs at hnamed
  induction vs with
  | nil => exact ⟨[], rfl, rfl⟩
  | cons v vs ih =>
    obtain ⟨⟨kind, rfl⟩, hrest⟩ := List.forall_mem_cons.1 hnamed
    obtain ⟨kinds, hkinds, hlength⟩ := ih hrest
    refine ⟨kind :: kinds, ?_, by rw [List.length_cons, List.length_cons, hlength]⟩
    have hkind : ExtremeKind.ofValue (.text kind.name) = .ok kind := by
      simp [ExtremeKind.ofValue, Json.Value.member, kind.ofName?_name]
    rw [List.mapM_cons, hkind, hkinds]
    rfl

/-- A display that is asked for hides none of the other settings. -/
theorem value_marked (o : Options) (m : Table String Value) (directory : Value) :
    ∃ m', (if o.tui then (ofParts m directory).assign "tui" (.bool true)
        else pure (ofParts m directory)) = .ok (ofParts m' directory) ∧
      ∀ name, name ≠ "tui" → (ofParts m' directory).value name = (ofParts m directory).value name := by
  split
  · refine ⟨_, Settings.assign_ofParts (by decide), fun name hname => ?_⟩
    rw [Settings.value_ofParts, Settings.value_ofParts, Table.get?_insert_of_ne _ _ hname]
  · exact ⟨m, rfl, fun _ _ => rfl⟩

/-- A setting that options change has the value of an option, or it is a grammar file that is
unset. -/
theorem value_changed (o : Options) (m : Table String Value) (directory : Value) :
    ∃ m', o.changed (ofParts m directory) = .ok (ofParts m' directory) ∧ ∀ name, name ≠ "tui" →
      (ofParts m' directory).value name = (ofParts m directory).value name ∨
        (∃ v, (name, v) ∈ o.changes ∧ v ≠ .null ∧ (ofParts m' directory).value name = v) ∨
        (name = "grammar_file" ∧ (ofParts m' directory).value name = .null) := by
  have hmerged := Settings.value_merge m o.changes directory
  unfold changed
  rw [Settings.update_ofParts]
  by_cases hbuiltin : o.choosesBuiltin = true
  · obtain ⟨m', hm', hsame⟩ := o.value_marked
      ((m.merge (o.changes.filter fun f => !Settings.isNull f.2)).insert "grammar_file" .null)
      directory
    simp only [hbuiltin, if_true]
    refine ⟨m', hm', fun name hname => ?_⟩
    rw [hsame name hname]
    by_cases hfile : name = "grammar_file"
    · subst hfile
      refine .inr (.inr ⟨rfl, ?_⟩)
      rw [Settings.value_ofParts, Table.get?_insert_self]
      rfl
    · have hvalue := hmerged name
      rw [Settings.value_ofParts, Table.get?_insert_of_ne _ _ hfile]
      exact hvalue.imp_right .inl
  · obtain ⟨m', hm', hsame⟩ := o.value_marked
      (m.merge (o.changes.filter fun f => !Settings.isNull f.2)) directory
    simp only [hbuiltin]
    refine ⟨m', hm', fun name hname => ?_⟩
    rw [hsame name hname]
    exact (hmerged name).imp_right .inl

/-- The settings that options give are numbers or texts by their names. -/
theorem isNumber_or_isText (ho : o.IsProper) : ∀ f ∈ o.changes,
    (f.1 ∈ "seed" :: "max_depth" :: Settings.countNames ∧ IsNumber f.2) ∨
      (f.1 ∈ ["identifier", "grammar", "grammar_file", "output_dir"] ∧ IsText f.2) := by
  simp only [changes, List.forall_mem_cons]
  exact ⟨.inl ⟨by decide, ho.validCount⟩, .inl ⟨by decide, ho.invalidCount⟩,
    .inl ⟨by decide, ho.extremePerKind⟩, .inl ⟨by decide, ho.depth⟩, .inl ⟨by decide, ho.seed⟩,
    .inr ⟨by decide, ho.identifier⟩, .inr ⟨by decide, ho.grammar⟩, .inr ⟨by decide, ho.grammarFile⟩,
    .inr ⟨by decide, ho.outputDirectory⟩, by simp⟩

section Values

variable {name : String} {v : Value} (ho : o.IsProper) (hvalues : o.HasValues)
  (hv : (name, v) ∈ o.changes) (hnull : v ≠ .null)

include ho hvalues hv hnull

/-- What options with values give for a setting that is a number is a number. -/
theorem exists_int_of_changes (hname : name ∈ "seed" :: "max_depth" :: Settings.countNames) :
    ∃ n : Int, v = .int n := by
  have hdisjoint : ∀ name ∈ "seed" :: "max_depth" :: Settings.countNames,
      name ∉ ["identifier", "grammar", "grammar_file", "output_dir"] := by decide
  rcases isNumber_or_isText ho _ hv with ⟨-, hnumber⟩ | ⟨hother, -⟩
  · rcases hnumber with rfl | rfl | ⟨n, rfl, -⟩
    · exact absurd rfl hnull
    · exact absurd rfl (hvalues.changes _ hv)
    · exact ⟨n, rfl⟩
  · exact absurd hother (hdisjoint name hname)

/-- What options with values give for a setting that is a text is a text. -/
theorem exists_text_of_changes (hname : name ∈ ["identifier", "grammar", "grammar_file"]) :
    ∃ text, v = .text text := by
  have hdisjoint : ∀ name ∈ ["identifier", "grammar", "grammar_file"],
      name ∉ "seed" :: "max_depth" :: Settings.countNames := by decide
  rcases isNumber_or_isText ho _ hv with ⟨hother, -⟩ | ⟨-, htext⟩
  · exact absurd hother (hdisjoint name hname)
  · rcases htext with rfl | rfl | ⟨text, rfl⟩
    · exact absurd rfl hnull
    · exact absurd rfl (hvalues.changes _ hv)
    · exact ⟨text, rfl⟩

end Values

/-- **Settings of the usual kinds stay so when options with values change them.** -/
theorem isTyped_changed (ho : o.IsProper) (hvalues : o.HasValues)
    (hs : (ofParts m directory).IsTyped) :
    ∃ m', o.changed (ofParts m directory) = .ok (ofParts m' directory) ∧
      (ofParts m' directory).IsTyped := by
  obtain ⟨m', hm', hchanged⟩ := value_changed o m directory
  refine ⟨m', hm', ?_⟩
  -- Each kind of setting keeps its value, or has one that an option gives; a file may be unset too.
  constructor
  case numbers =>
    intro name hname
    rcases hchanged name (ne_of_mem_of_not_mem hname (by decide)) with
      hsame | ⟨v, hv, hnull, hvalue⟩ | ⟨rfl, -⟩
    · rw [hsame]
      exact hs.numbers name hname
    · rw [hvalue]
      exact exists_int_of_changes ho hvalues hv hnull (List.mem_cons_of_mem _ hname)
    · exact absurd hname (by decide)
  case texts =>
    intro name hname
    rcases hchanged name (ne_of_mem_of_not_mem hname (by decide)) with
      hsame | ⟨v, hv, hnull, hvalue⟩ | ⟨rfl, -⟩
    · rw [hsame]
      exact hs.texts name hname
    · rw [hvalue]
      exact exists_text_of_changes ho hvalues hv hnull (List.mem_append_left ["grammar_file"] hname)
    · exact absurd hname (by decide)
  case seed =>
    rcases hchanged "seed" (by decide) with hsame | ⟨v, hv, hnull, hvalue⟩ | ⟨hother, -⟩
    · rw [hsame]
      exact hs.seed
    · rw [hvalue]
      exact .inr (exists_int_of_changes ho hvalues hv hnull List.mem_cons_self)
    · exact absurd hother (by decide)
  case file =>
    rcases hchanged "grammar_file" (by decide) with hsame | ⟨v, hv, hnull, hvalue⟩ | ⟨-, hvalue⟩
    · rw [hsame]
      exact hs.file
    · rw [hvalue]
      exact .inr (exists_text_of_changes ho hvalues hv hnull (by decide))
    · exact .inl hvalue

end Options

/-! ## The stages of a run -/

/-- The clock of a terminal can be read. -/
def Terminal.IsReady (t : Terminal) : Prop := t.clock.IsReadable

namespace Program

variable {env : Environment} {o : Options} {s s' : Settings} {g : Grammar} {α ε : Type}

/-- What a run does with its cases: it shows them, and exports and saves them if that is asked
for. -/
def publish (env : Environment) (o : Options) (s : Settings) (g : Grammar) (outcome : Outcome) :
    Program Unit := do
  results o s outcome
  let r : Report := {
    cases := outcome.cases
    figures := outcome.metrics.figures
    grammar := some g
    now := env.now }
  let directory ← orInvalid env (Settings.expandPath env.home (s.value "output_dir"))
  exports env o s r directory
  reports env o r directory
  say env .info "cfgcases has finished execution. Goodbye!"

theorem generate_eq : generate env o s g = outcome env o s g >>= publish env o s g := rfl

/-- How a run with settings ends without a report of what went wrong. -/
inductive Escapes (env : Environment) (o : Options) (s : Settings) : Ending → Prop
  /-- The log cannot be set up. -/
  | log (e : Log.SetupError) : Escapes env o s (.crashed (.log e))
  /-- The directory of the settings cannot be made, or the settings have no text. -/
  | saving {e : SettingsError} {t : FileTree} (hsave : o.saveConfig = true)
    (h : ((s.save env.home).runOn t).1 = .error e) : Escapes env o s (.crashed (.settings e))
  /-- No grammar file is set, and no built-in grammar has the name. -/
  | unknown {name : String} (hfile : (s.value "grammar_file").truthy = false)
    (hname : s.value "grammar" = .text name) (hnone : Builtin.ofName? name = none) :
    Escapes env o s (.crashed (.misuse (.noGrammar name Builtin.names)))
  /-- There is a directory in the place of the grammar file. -/
  | directory {path : String} {t : FileTree} (hfile : s.value "grammar_file" = .text path)
    (hdirectory : t.hasDirectory (Path.expandHome env.home path) = true) :
    Escapes env o s (.crashed (.grammar (.file ⟨.isDirectory, Path.expandHome env.home path⟩)))
  /-- A number of the cases is out of range. -/
  | excess {f : Failure} (h : f.IsExcess (s.plan.most (max 6 o.kinds.length))) :
    Escapes env o s (.crashed (.run f))
  /-- The cases were made, and cannot be published. -/
  | publishing {g : Grammar} {e : Ending} {outcome : Outcome} {t t' : Terminal}
    (h : (publish env o s g outcome).runOn t = (.error e, t')) : Escapes env o s e

/-- A run with settings reports what went wrong, or it is one of the failures that escape. -/
def Reports (env : Environment) (o : Options) (s : Settings) (e : Ending) (_ : Terminal) : Prop :=
  e = .failed ∨ Escapes env o s e

theorem record_ready (records : Log.Journal) {F : Ending → Terminal → Prop} :
    (record env records).Ensures Terminal.IsReady (fun _ => Terminal.IsReady) F :=
  ensures_modify fun _ h => h

theorem throw_reports {e : Ending} {P : Terminal → Prop} {Q : α → Terminal → Prop}
    (h : Escapes env o s e) : (throw e : Program α).Ensures P Q (Reports env o s) :=
  .throw fun _ _ => Or.inr h

theorem fail_ready (message : String) {Q : α → Terminal → Prop} :
    (fail env message : Program α).Ensures Terminal.IsReady Q (Reports env o s) :=
  (record_ready _).bind fun _ => .throw fun _ _ => Or.inl rfl

theorem setUpLog_ready (setup : Log.Setup) :
    (setUpLog env setup).Ensures Terminal.IsReady (fun _ => Terminal.IsReady)
      (Reports env o s) := by
  unfold setUpLog
  refine Ensures.get_bind fun t ht => ?_
  rintro _ rfl
  dsimp only
  rw [runOn_bind, runOn_set]
  dsimp only
  split
  · exact Ensures.pure (fun t ht => ht) _ ht
  · exact @throw_reports _ _ _ _ _ Terminal.IsReady _ (.log _) _ ht

theorem onFiles_ready (x : Action FileTree ε α) {F : Ending → Terminal → Prop} :
    (onFiles x).Ensures Terminal.IsReady
      (fun r t => (∃ tree, r = (x.runOn tree).1) ∧ t.IsReady) F := by
  intro t ht
  refine ⟨fun r t' hrun => ?_, fun e t' hrun => by cases hrun⟩
  obtain ⟨hr, rfl⟩ := Prod.mk.inj hrun
  exact ⟨⟨t.outlet.tree, (Except.ok.inj hr).symm⟩, ht⟩

/-- Faults of settings are reported. -/
theorem orInvalid_ready {x : Except SettingsError α}
    (hx : ∀ e, x = .error e → (∃ c, e = .config c) ∨ Escapes env o s (.crashed (.settings e))) :
    (orInvalid env x).Ensures Terminal.IsReady (fun a t => x = .ok a ∧ t.IsReady)
      (Reports env o s) := by
  unfold orInvalid
  split
  · exact .pure fun _ ht => ⟨rfl, ht⟩
  · exact fail_ready _
  · rename_i e hother
    rcases hx e rfl with ⟨c, rfl⟩ | hescapes
    · exact absurd rfl (hother c)
    · exact throw_reports hescapes

/-- **The check** of settings of the usual kinds reports what is wrong. -/
theorem checked_ensures {m : Table String Value} {directory : Value}
    (hs : (ofParts m directory).IsTyped) :
    (checked env o (ofParts m directory)).Ensures Terminal.IsReady
      (fun _ t => (ofParts m directory).validate = .ok () ∧ t.IsReady)
      (Reports env o (ofParts m directory)) := by
  unfold checked
  refine (orInvalid_ready fun e he => .inl (Settings.validate_faults hs e he)).bind fun _ => ?_
  refine Ensures.of_and fun hvalid => ?_
  split
  · rename_i hsave
    refine (onFiles_ready _).bind fun result => Ensures.of_and ?_
    rintro ⟨tree, rfl⟩
    refine (orInvalid_ready fun e he => .inr (.saving hsave he)).bind fun path => ?_
    exact (Ensures.of_and fun _ => record_ready _).mono (fun _ h => h) (fun _ _ h => ⟨hvalid, h⟩)
      fun _ _ h => h
  · exact .pure fun _ ht => ⟨hvalid, ht⟩

/-- **The grammar of a run** is one that was read, or what went wrong is reported, except for an
unknown name and for a directory. -/
theorem grammar_ensures (hs : s.IsTyped) :
    (grammar env s).Ensures Terminal.IsReady
      (fun g t => (∃ text name, Grammar.ofText text name = .ok g) ∧ t.IsReady)
      (Reports env o s) := by
  unfold grammar
  dsimp only
  split
  · rename_i htruthy
    obtain ⟨path, hfile⟩ : ∃ path, s.value "grammar_file" = .text path := by
      refine hs.file.resolve_left fun hnull => ?_
      rw [hnull] at htruthy
      cases htruthy
    rw [hfile]
    show (grammarOfFile env path).Ensures _ _ _
    unfold grammarOfFile
    refine Ensures.get_bind fun t ht => Ensures.mono ?_ (fun u hu => hu ▸ ht) (fun _ _ h => h)
      fun _ _ h => h
    rcases hload : Grammar.load env.home t.outlet.tree path with e | g
    · rcases e with path | f | e
      · exact fail_ready _
      · obtain ⟨rfl, hdirectory⟩ := Grammar.directory_of_load hload
        exact throw_reports (.directory hfile hdirectory)
      · exact fail_ready _
    · have hread := Grammar.exists_ofText_of_load hload
      exact (record_ready _).bind fun _ => .pure fun _ h => ⟨hread, h⟩
  · rename_i hfile
    obtain ⟨name, hname⟩ := hs.texts "grammar" (by decide)
    rw [hname]
    unfold grammarOfName
    have hmeant : (meant (Builtin.ofValue (.text name))).Ensures Terminal.IsReady
        (fun _ => Terminal.IsReady) (Reports env o s) := by
      rw [Builtin.ofValue]
      rcases hbuiltin : Builtin.ofName? name with _ | b
      · exact throw_reports (.unknown (by simpa using hfile) hname hbuiltin)
      · exact .pure fun _ h => h
    refine hmeant.bind fun b => (record_ready _).bind fun _ => ?_
    split
    · rename_i g hg
      exact .pure fun _ h => ⟨⟨_, _, hg⟩, h⟩
    · exact fail_ready _

/-- The records of a run of the generator are made, whatever its outcome is. -/
theorem onRun_ready {x : Run α} {most : Int} (hx : Run.Contained most x)
    {F : Ending → Terminal → Prop} : (onRun env x).Ensures Terminal.IsReady
      (fun r t => Run.Meets most r (fun _ => True) ∧ t.IsReady) F := by
  unfold onRun
  refine Ensures.get_bind fun t ht => ?_
  rintro _ -
  obtain ⟨hmeets, hclock⟩ := hx { clock := t.clock } ht
  dsimp only
  rw [runOn_bind, runOn_set]
  exact ((record_ready _).bind fun _ => .pure fun _ h => ⟨hmeets, h⟩) _ hclock

/-- **Extreme cases** of the kinds that the options name, or of all kinds, are contained. -/
theorem extremes_contained {created : Instant} {plan : Plan} (hplan : plan.Valid) (g : Grammar)
    (source : Random.Twister) (hnow : env.now = .ok created) (ho : o.IsNamed)
    (hvalues : o.HasValues) :
    Run.Contained (plan.most (max 6 o.kinds.length)) (extremes env o.kinds plan g (.ok source)) := by
  obtain ⟨kinds, hkinds, hlength⟩ := Options.exists_kinds ho hvalues
  unfold extremes
  rw [hkinds, hnow]
  refine Run.extremeOnly_contained hplan g source created _ (hplan.counts_le_most ?_).2.2.1
  split
  · exact Nat.le_max_left _ _
  · rw [Option.getD_some, hlength]
    exact Nat.le_max_right _ _

/-- **A run of the generator** for any mode is contained. -/
theorem generation_contained {created : Instant} {text : String} {name : Value} {plan : Plan}
    (hplan : plan.Valid) (hg : Grammar.ofText text name = .ok g) (source : Random.Twister)
    (hnow : env.now = .ok created) (ho : o.IsNamed) (hvalues : o.HasValues) :
    Run.Contained (plan.most (max 6 o.kinds.length)) (generation env o plan g (.ok source)) := by
  obtain ⟨hvalid, hinvalid, -, hsuite⟩ :=
    hplan.counts_le_most (Nat.le_max_left 6 o.kinds.length)
  have hextremes := extremes_contained hplan g source hnow ho hvalues
  unfold generation
  split
  · rw [hnow]
    exact Run.validOnly_contained hplan g source created hvalid
  · rw [hnow]
    refine Run.invalidOnly_contained hplan g source created ?_ hinvalid
    exact ho.input.imp_right fun h => h.resolve_left hvalues.input
  · exact hextremes
  · exact hextremes
  · rw [hnow]
    exact ((Run.suite_contained hg hplan source created).mono hsuite).map Prod.fst

/-- **The cases of a run** are made, or what went wrong is reported, unless a number is out of
range. -/
theorem outcome_ensures {created : Instant} {text : String} {name : Value} (hplan : s.plan.Valid)
    (hg : Grammar.ofText text name = .ok g) (hs : s.IsTyped) (hnow : env.now = .ok created)
    (ho : o.IsNamed) (hvalues : o.HasValues) :
    (outcome env o s g).Ensures Terminal.IsReady (fun _ => Terminal.IsReady) (Reports env o s) := by
  obtain ⟨source, hsource⟩ : ∃ source, s.source env.seed = .ok source := by
    unfold Settings.source
    rcases hs.seed with hseed | ⟨n, hseed⟩ <;> rw [hseed] <;> exact ⟨_, rfl⟩
  have hrun := generation_contained hplan hg source hnow ho hvalues
  unfold outcome
  rw [hsource]
  refine (onRun_ready hrun).bind fun result => Ensures.of_and fun hmeets => ?_
  split
  · exact .pure fun _ h => h
  · exact fail_ready _
  · exact fail_ready _
  · rename_i f hdepth hproductions
    rcases hmeets.2 f rfl with hreported | hexcess
    · cases f with
      | depthExceeded e => exact absurd rfl (hdepth e)
      | noProductions symbol => exact absurd rfl (hproductions symbol)
      | _ => cases hreported
    · exact throw_reports (.excess hexcess)

/-- A name that no built-in grammar has ends a run. -/
theorem grammar_of_unknown {name : String} (hfile : (s.value "grammar_file").truthy = false)
    (hname : s.value "grammar" = .text name) (hnone : Builtin.ofName? name = none) (t : Terminal) :
    (grammar env s).runOn t =
      (.error (.crashed (.misuse (.noGrammar name Builtin.names))), t) := by
  have hbuiltin : Builtin.ofValue (.text name) = .error (.noGrammar name Builtin.names) := by
    rw [Builtin.ofValue, hnone]
  rw [grammar, hfile, hname]
  show (grammarOfName env (.text name)).runOn t = _
  rw [grammarOfName, hbuiltin]
  rfl

/-- A directory in the place of the grammar file ends a run. -/
theorem grammar_of_directory {path : String} {t : Terminal}
    (hfile : s.value "grammar_file" = .text path) (hne : path ≠ "")
    (hdirectory : t.outlet.tree.hasDirectory (Path.expandHome env.home path) = true) :
    (grammar env s).runOn t =
      (.error (.crashed (.grammar (.file ⟨.isDirectory, Path.expandHome env.home path⟩))), t) := by
  have htruthy : (Value.text path).truthy = true := by simpa [Value.truthy] using hne
  rw [grammar, hfile, htruthy]
  show (grammarOfFile env path).runOn t = _
  rw [grammarOfFile, runOn_bind, runOn_get]
  dsimp only
  rw [Grammar.load_of_directory hdirectory]
  rfl

/-! ## A run -/

theorem describe_ready (s : Settings) (g : Grammar) {F : Ending → Terminal → Prop} :
    (describe s g).Ensures Terminal.IsReady (fun _ => Terminal.IsReady) F := by
  unfold describe
  split
  · exact ensures_modify fun _ h => h
  · exact ensures_modify fun _ h => h

theorem publish_ensures (outcome : Outcome) :
    (publish env o s g outcome).Ensures Terminal.IsReady (fun _ _ => True) (Reports env o s) :=
  fun _ _ => ⟨fun _ _ _ => trivial, fun _ _ hrun => Or.inr (.publishing hrun)⟩

/-- A run of settings of the usual kinds, stage by stage. -/
theorem work_ensures {created : Instant} {m m' : Table String Value} {directory : Value}
    (hchanged : o.changed (ofParts m directory) = .ok (ofParts m' directory))
    (hs : (ofParts m' directory).IsTyped) (hnow : env.now = .ok created) (ho : o.IsNamed)
    (hvalues : o.HasValues) :
    (work env o (ofParts m directory)).Ensures Terminal.IsReady (fun _ _ => True)
      (Reports env o (ofParts m' directory)) := by
  unfold work
  rw [hchanged]
  refine (setUpLog_ready _).bind fun _ => (record_ready _).bind fun _ => ?_
  refine (checked_ensures hs).bind fun _ => Ensures.of_and fun hvalid => ?_
  have hplan := Settings.plan_valid hs hvalid
  refine (grammar_ensures hs).bind fun g => Ensures.of_and ?_
  rintro ⟨text, name, hg⟩
  split
  · exact (describe_ready _ _).mono (fun _ h => h) (fun _ _ _ => trivial) fun _ _ h => h
  · rw [generate_eq]
    exact (outcome_ensures hplan hg hs hnow ho hvalues).bind fun outcome => publish_ensures outcome

end Program

end GrammarSuite.CommandLine
