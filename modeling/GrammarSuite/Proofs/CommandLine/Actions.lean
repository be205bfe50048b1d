import GrammarSuite.CommandLine.Program
import GrammarSuite.Proofs.Log.Files
import GrammarSuite.Proofs.Report.Files

/-!
# What the program leaves alone

Most of what the program does keeps whatever holds of the files, as long as the handlers of its log
keep it: it shows something, makes records, or fails.

## Main definitions

* `Terminal.Guards`: something holds of the files, and the log keeps it

## Main results

* `generate_preserves`: what is kept by a run that makes cases, from what its reports keep
-/

namespace GrammarSuite.CommandLine

open GrammarSuite.Action
open Json (Value)

/-- Something holds of the files of a terminal, and the handlers of its log keep it. -/
structure Terminal.Guards (J : FileTree → Prop) (t : Terminal) : Prop where
  tree : J t.outlet.tree
  keeps : t.logger.Keeps J

/-- A log that is not set up yet keeps everything. -/
theorem Terminal.guards_of_new {J : FileTree → Prop} {t : Terminal} (ht : J t.outlet.tree)
    (hl : t.logger = {}) : t.Guards J := by
  refine ⟨ht, ?_⟩
  rw [hl]
  exact fun h hmem => by cases hmem

namespace Program

variable {J : FileTree → Prop} {env : Environment} {o : Options} {α ε : Type}

theorem print_preserves (line : String) : (print line).Preserves (Terminal.Guards J) :=
  preserves_modify fun _ h => ⟨h.tree, h.keeps⟩

theorem display_preserves (d : Display) : (display d).Preserves (Terminal.Guards J) :=
  preserves_modify fun _ h => ⟨h.tree, h.keeps⟩

theorem complain_preserves (line : String) : (complain line).Preserves (Terminal.Guards J) :=
  preserves_modify fun _ h => ⟨h.tree, h.keeps⟩

theorem record_preserves (records : Log.Journal) :
    (record env records).Preserves (Terminal.Guards J) :=
  preserves_modify fun _ h => ⟨Log.Logger.emitAll_keeps h.keeps h.tree, h.keeps⟩

theorem say_preserves (level : Log.Level) (message : String) :
    (say env level message).Preserves (Terminal.Guards J) := record_preserves _

theorem fail_preserves (message : String) :
    (fail env message : Program α).Preserves (Terminal.Guards J) :=
  (say_preserves _ _).bind fun _ => .throw _

theorem crash_preserves (e : Crash) : (crash e : Program α).Preserves (Terminal.Guards J) := .throw _

theorem meant_preserves (x : Except Json.Misuse α) :
    (meant x).Preserves (Terminal.Guards J) := by
  cases x with
  | ok a => exact .pure a
  | error m => exact crash_preserves _

/-- What holds behind an action on the files, or behind its failure, holds behind its outcome. -/
theorem onFiles_ensures {x : Action FileTree ε α} {Q : α → FileTree → Prop}
    {F : ε → FileTree → Prop} {l : Log.Logger} {E : Ending → Terminal → Prop}
    (hx : x.Ensures J Q F) :
    (onFiles x).Ensures (fun t => J t.outlet.tree ∧ t.logger = l)
      (fun result t => ((∀ a, result = .ok a → Q a t.outlet.tree) ∧
        ∀ e, result = .error e → F e t.outlet.tree) ∧ t.logger = l) E := by
  intro t ⟨ht, hl⟩
  obtain ⟨hok, herror⟩ := hx t.outlet.tree ht
  refine ⟨fun result t' hrun => ?_, fun e t' hrun => by cases hrun⟩
  obtain ⟨hresult, rfl⟩ := Prod.mk.inj hrun
  obtain rfl := Except.ok.inj hresult
  exact ⟨⟨fun a ha => hok a _ (Prod.ext ha rfl), fun e he => herror e _ (Prod.ext he rfl)⟩, hl⟩

theorem onFiles_preserves {x : Action FileTree ε α} (hx : x.Preserves J) :
    (onFiles x).Preserves (Terminal.Guards J) := fun _ h => ⟨hx _ h.tree, h.keeps⟩

/-- Setting the log up keeps what making its file keeps, if it has one. Its only failure is that of
the set-up. -/
theorem setUpLog_ensures {setup : Log.Setup}
    (hfile : setup.toFile.truthy = true → ∀ level,
      (setup.addFile env.home level).Preserves (Log.Assembly.Guards J)) :
    (setUpLog env setup).Ensures (Terminal.Guards J) (fun _ => Terminal.Guards J)
      fun e t => (∃ cause, e = .crashed (.log cause)) ∧ t.Guards J := by
  have hset : (setup.assemble env.home env.logged).Preserves (Log.Assembly.Guards J) :=
    Log.Setup.assemble_preserves hfile
  unfold setUpLog
  refine Ensures.get_bind fun t ht => ?_
  rintro _ rfl
  have ha := hset ⟨_, _⟩ ⟨ht.tree, ht.keeps⟩
  dsimp only
  rw [runOn_bind, runOn_set]
  dsimp only
  split
  · exact Ensures.pure (fun t ht => ht) _ ⟨ha.tree, ha.keeps⟩
  · exact Ensures.throw (fun t ht => ⟨⟨_, rfl⟩, ht⟩) _ ⟨ha.tree, ha.keeps⟩

theorem setUpLog_preserves {setup : Log.Setup}
    (hfile : setup.toFile.truthy = true → ∀ level,
      (setup.addFile env.home level).Preserves (Log.Assembly.Guards J)) :
    (setUpLog env setup).Preserves (Terminal.Guards J) :=
  ((setUpLog_ensures hfile).mono (fun _ h => h) (fun _ _ h => h) fun _ _ h => h.2).preserves

theorem onRun_preserves (x : Run α) : (onRun env x).Preserves (Terminal.Guards J) := by
  unfold onRun
  refine Preserves.get_bind fun t ht => ?_
  dsimp only
  rw [runOn_bind, runOn_set]
  exact ((record_preserves _).bind fun _ => .pure _) _ ⟨ht.tree, ht.keeps⟩

/-- A reported failure ends the run. -/
theorem runOn_fail (message : String) (t : Terminal) :
    (fail env message : Program α).runOn t =
      (.error .failed, ((say env .error message).runOn t).2) := rfl

theorem fail_ensures (message : String) {Q : α → Terminal → Prop} :
    (fail env message : Program α).Ensures (Terminal.Guards J) Q
      fun e t => e = .failed ∧ t.Guards J := by
  refine Ensures.bind ?_ fun _ => .throw fun t ht => ⟨rfl, ht⟩
  exact ensures_modify fun t ht => record_preserves [⟨.error, Log.Channel.main, message⟩] t ht

/-- A run goes on only where an operation on settings succeeded. -/
theorem orInvalid_bind_preserves {x : Except SettingsError α} {β : Type} {k : α → Program β}
    (hk : ∀ a, x = .ok a → (k a).Preserves (Terminal.Guards J)) :
    (orInvalid env x >>= k).Preserves (Terminal.Guards J) := by
  unfold orInvalid
  split
  · exact hk _ rfl
  · intro t ht
    rw [runOn_bind, runOn_fail]
    exact say_preserves _ _ t ht
  · exact .throw _

theorem orInvalid_preserves (x : Except SettingsError α) :
    (orInvalid env x).Preserves (Terminal.Guards J) := by
  unfold orInvalid
  split
  · exact .pure _
  · exact fail_preserves _
  · exact crash_preserves _

theorem orUnwritten_preserves (x : Except SaveError α) :
    (orUnwritten env x).Preserves (Terminal.Guards J) := by
  unfold orUnwritten
  split
  · exact .pure _
  · split
    · exact fail_preserves _
    · exact crash_preserves _
  · exact crash_preserves _

theorem grammarOfFile_preserves (path : String) :
    (grammarOfFile env path).Preserves (Terminal.Guards J) := by
  unfold grammarOfFile
  refine Preserves.get_bind fun t ht => ?_
  split
  · exact ((record_preserves _).bind fun _ => .pure _) t ht
  · rename_i e _
    have hend : ∀ reported : Bool, (if reported then
        fail env ("Failed to load grammar: " ++ e.message) else crash (.grammar e) :
        Program Grammar).Preserves (Terminal.Guards J) := by
      intro reported
      split
      · exact fail_preserves _
      · exact crash_preserves _
    exact hend _ t ht

theorem grammarOfName_preserves (name : Value) :
    (grammarOfName env name).Preserves (Terminal.Guards J) := by
  unfold grammarOfName
  refine (meant_preserves _).bind fun b => (record_preserves _).bind fun _ => ?_
  split
  · exact .pure _
  · exact fail_preserves _

theorem grammar_preserves (s : Settings) : (grammar env s).Preserves (Terminal.Guards J) := by
  unfold grammar
  dsimp only
  split
  · exact grammarOfFile_preserves _
  · exact grammarOfName_preserves _

theorem outcome_preserves (s : Settings) (g : Grammar) :
    (outcome env o s g).Preserves (Terminal.Guards J) := by
  unfold outcome
  refine (onRun_preserves _).bind fun result => ?_
  split
  · exact .pure _
  · exact fail_preserves _
  · exact fail_preserves _
  · exact crash_preserves _

theorem describe_preserves (s : Settings) (g : Grammar) :
    (describe s g).Preserves (Terminal.Guards J) := by
  unfold describe
  split
  · exact display_preserves _
  · exact print_preserves _

theorem results_preserves (s : Settings) (outcome : Outcome) :
    (results o s outcome).Preserves (Terminal.Guards J) := by
  unfold results
  dsimp only
  split
  · exact (meant_preserves _).bind fun d => display_preserves d
  · refine (Preserves.forM print_preserves _).bind fun _ => ?_
    exact (meant_preserves _).bind fun line => print_preserves line

/-- What a run writes besides its log is what its reports are written by. -/
theorem exports_preserves {s : Settings} {r : Report} {directory : String}
    (hexport : ∀ path configuration, o.exportTo = some path →
      (r.exportJson env.home directory configuration
        (if path.isEmpty then .null else .text path)).Preserves J) :
    (exports env o s r directory).Preserves (Terminal.Guards J) := by
  unfold exports
  split
  · exact .pure _
  · rename_i path hpath
    refine (orInvalid_preserves _).bind fun configuration => ?_
    refine (onFiles_preserves (hexport path configuration hpath)).bind fun result => ?_
    refine (orUnwritten_preserves _).bind fun written => ?_
    exact (record_preserves _).bind fun _ => print_preserves _

theorem reports_preserves {r : Report} {directory : String}
    (hsave : (r.save directory .null).Preserves J) :
    (reports env o r directory).Preserves (Terminal.Guards J) := by
  unfold reports
  split
  · refine (onFiles_preserves hsave).bind fun result => ?_
    refine (orUnwritten_preserves _).bind fun saved => ?_
    exact (record_preserves _).bind fun _ => .forM (fun entry => print_preserves _) _
  · exact .pure _

/-- **What is kept by a run that makes cases**, if its reports keep it. -/
theorem generate_preserves {s : Settings} {g : Grammar}
    (hexport : ∀ (r : Report) directory path configuration, o.exportTo = some path →
      (r.exportJson env.home directory configuration
        (if path.isEmpty then .null else .text path)).Preserves J)
    (hsave : ∀ (r : Report) directory, (r.save directory .null).Preserves J) :
    (generate env o s g).Preserves (Terminal.Guards J) := by
  unfold generate
  refine (outcome_preserves s g).bind fun outcome => ?_
  refine (results_preserves s outcome).bind fun _ => ?_
  refine (orInvalid_preserves _).bind fun directory => ?_
  refine (exports_preserves (hexport _ directory)).bind fun _ => ?_
  exact (reports_preserves (hsave _ directory)).bind fun _ => say_preserves _ _

end Program

end GrammarSuite.CommandLine
