import GrammarSuite.Log.Output
import GrammarSuite.Proofs.FileTree.Kept

/-!
# What a log leaves alone

A log writes to its files, and moves what has the names of files that are put aside, directories
included. A file elsewhere stays as it is, unless something above it is moved. That the file of a
log itself is not above another file need not be asked for: it was a file when the log was set up.

## Main definitions

* `Log.Avoids`: a file of a log, and what is put aside from it, is elsewhere than a place
* `Handler.Keeps`, `Logger.Keeps`: showing records keeps something of the files
* `Setup.Avoids`: the file of a log that is set up is elsewhere than a place

## Main results

* `Handler.keeps_file`: a handler with a file elsewhere keeps a file
* `emitAll_keeps`: what the handlers of a log keep is kept when records are written
* `addFile_preserves`, `assemble_preserves`: what is kept when a log is set up
-/

namespace GrammarSuite.Log

open FileTree GrammarSuite.Action

variable {t : FileTree} {p : Place} {text path source target line : String} {backups : Int}
  {o : Outlet} {l : Logger}

/-- A file, and what is put aside from it, is elsewhere than a place, and nothing that is moved is
above the place. -/
structure Avoids (path : String) (backups : Int) (p : Place) : Prop where
  notAbove : ¬ Path.place path <+: p
  aside_ne : ∀ number, Path.place (Outlet.asidePath path number) ≠ p
  aside_notAbove : ∀ number : Nat, 0 < number → number < backups →
    ¬ Path.place (Outlet.asidePath path number) <+: p

theorem Avoids.ne (h : Avoids path backups p) : Path.place path ≠ p := by
  rintro rfl
  exact h.notAbove List.prefix_rfl

/-! ## Writing -/

namespace Outlet

/-- A file stays when something is moved that is not above it. -/
theorem move_holds (h : t.Holds p text) (hsource : ¬ Path.place source <+: p)
    (htarget : Path.place target ≠ p) : (move t source target).Holds p text := by
  unfold move
  split
  · rename_i s q hs hq
    split
    · exact h
    · rename_i hmoves
      rw [← locate_eq hs] at hsource
      rw [← locate_eq hq] at htarget
      exact h.move hsource htarget fun hnode => hmoves (.inr hnode)
  · exact h

theorem moveAside_holds (hp : Avoids path backups p) {steps : Nat} (hsteps : steps < backups)
    (h : t.Holds p text) : (moveAside t path steps).Holds p text := by
  induction steps generalizing t with
  | zero => exact h
  | succ steps ih =>
    have hmoved := move_holds h (hp.aside_notAbove (steps + 1) (Nat.succ_pos steps) hsteps)
      (hp.aside_ne (steps + 2))
    exact ih (by omega) hmoved

theorem rotate_holds (hp : Avoids path backups p) (hbackups : 0 < backups) (h : t.Holds p text) :
    (rotate t path backups.toNat).Holds p text := by
  have haside : (moveAside t path (backups.toNat - 1)).Holds p text :=
    moveAside_holds hp (by omega) h
  have hmoved := move_holds haside hp.notAbove (hp.aside_ne 1)
  unfold rotate
  dsimp only
  split
  · rename_i t' hwrite
    exact hmoved.appendText hp.ne hwrite
  · exact hmoved

/-- A file stays when a line is written to a bounded file elsewhere. -/
theorem write_holds (hp : Avoids path backups p) {bound : Int} (h : o.tree.Holds p text) :
    (o.write path bound backups line).tree.Holds p text := by
  have hbefore : ∀ t, t = (if 0 < bound ∧ 0 < backups ∧
      bound ≤ size o.tree path + (Text.size line + 1) then rotate o.tree path backups.toNat
      else o.tree) → t.Holds p text := by
    rintro t rfl
    split
    · rename_i hfull
      exact rotate_holds hp hfull.2.1 h
    · exact h
  unfold write
  dsimp only
  split
  · rename_i t' hwrite
    exact (hbefore _ rfl).appendText hp.ne hwrite
  · exact hbefore _ rfl

end Outlet

/-- Showing a record by a handler keeps something of the files. -/
def Handler.Keeps (J : FileTree → Prop) (h : Handler) : Prop :=
  ∀ (now : Instant) (r : Record) (o : Outlet), J o.tree → J (h.pass now r o).tree

/-- The handlers of a log keep something of the files. -/
def Logger.Keeps (J : FileTree → Prop) (l : Logger) : Prop := ∀ h ∈ l.handlers.getD [], h.Keeps J

variable {J : FileTree → Prop}

/-- The console keeps what there is of files. -/
theorem Handler.keeps_console (coloured : Bool) (level : Level) :
    Handler.Keeps J ⟨.console coloured, level⟩ := by
  intro now r o ho
  unfold pass
  split
  · exact ho
  · cases coloured <;> exact ho

/-- A handler with a file elsewhere keeps a file. -/
theorem Handler.keeps_file {G : String → Prop} (hp : Avoids path backups p) (bound : Int)
    (level : Level) :
    Handler.Keeps (fun t => t.HoldsSome p G) ⟨.file path bound backups, level⟩ := by
  rintro now r o ⟨text, ho, htext⟩
  unfold pass
  split
  · exact ⟨text, ho, htext⟩
  · exact ⟨text, Outlet.write_holds hp ho, htext⟩

namespace Logger

theorem emitBare_keeps {r : Record} (ho : J o.tree) : J (emitBare r o).tree := by
  unfold emitBare
  split
  · exact ho
  · exact ho

theorem emit_keeps {now : Instant} {r : Record} (hl : l.Keeps J) (ho : J o.tree) :
    J (l.emit now r o).tree := by
  have hall : ∀ handlers : List Handler, (∀ h ∈ handlers, h.Keeps J) → ∀ o : Outlet, J o.tree →
      J (handlers.foldl (fun o h => h.pass now r o) o).tree := by
    intro handlers
    induction handlers with
    | nil => exact fun _ o ho => ho
    | cons h handlers ih =>
      intro hp o ho
      obtain ⟨hfirst, hrest⟩ := List.forall_mem_cons.1 hp
      exact ih hrest _ (hfirst now r o ho)
  unfold emit
  split
  · exact ho
  · split
    · unfold emitOwn
      split
      · exact ho
      · split
        · exact ho
        · exact emitBare_keeps ho
        · rename_i hhandlers
          rw [Logger.Keeps, hhandlers] at hl
          exact hall _ hl o ho
    · exact emitBare_keeps ho

/-- **What the handlers of a log keep is kept when records are written.** -/
theorem emitAll_keeps {now : Instant} {records : Journal} (hl : l.Keeps J) (ho : J o.tree) :
    J (l.emitAll now records o).tree := by
  unfold emitAll
  induction records generalizing o with
  | nil => exact ho
  | cons r records ih => exact ih (emit_keeps hl ho)

end Logger

/-! ## Setting up -/

/-- Something holds of the files, and the handlers of the log keep it. -/
structure Assembly.Guards (J : FileTree → Prop) (a : Assembly) : Prop where
  tree : J a.outlet.tree
  keeps : a.logger.Keeps J

namespace Setup

variable {s : Setup} {home : String} {G : String → Prop}

/-- The file of a log that is set up, and what is put aside from it, is elsewhere than a place, and
nothing that is put aside is above the place. -/
structure Avoids (s : Setup) (home : String) (p : Place) : Prop where
  ne : ∀ path, s.file home = .ok path → Path.place path ≠ p
  aside_ne : ∀ path number, s.file home = .ok path →
    Path.place (Outlet.asidePath path number) ≠ p
  aside_notAbove : ∀ path, s.file home = .ok path → ∀ number : Nat, 0 < number →
    number < s.backups.toInt → ¬ Path.place (Outlet.asidePath path number) <+: p

theorem checked_bind_preserves {α : Type} {x : Except Json.Misuse α}
    {k : α → Action Assembly SetupError Unit} {I : Assembly → Prop}
    (hk : ∀ a, x = .ok a → (k a).Preserves I) : (checked x >>= k).Preserves I := by
  cases x with
  | ok a => exact hk a rfl
  | error m => exact .throw _

theorem onFiles_preserves {x : Action FileTree FileError Unit} (hx : x.Preserves J) :
    (onFiles x).Preserves (Assembly.Guards J) :=
  Preserves.within hx (fun _ h => h.tree) fun _ _ h ht => ⟨ht, h.keeps⟩

theorem addHandler_preserves {target : Target} {level : Level}
    (h : Handler.Keeps J ⟨target, level⟩) :
    (addHandler target level).Preserves (Assembly.Guards J) := by
  refine preserves_modify fun a ha => ⟨ha.tree, ?_⟩
  intro h' hmem
  rcases List.mem_append.1 hmem with hmem | hmem
  · exact ha.keeps h' hmem
  · rw [List.mem_singleton.1 hmem]
    exact h

/-- A file that can be opened is not above another one, so that it may be moved. -/
theorem open_ensures (hne : Path.place path ≠ p) :
    (onFiles (FileTree.change (·.appendText path ""))).Ensures
      (Assembly.Guards fun t => t.HoldsSome p G)
      (fun _ a => ¬ Path.place path <+: p ∧ a.Guards fun t => t.HoldsSome p G)
      fun _ => Assembly.Guards fun t => t.HoldsSome p G := by
  have hkept : (onFiles (FileTree.change (·.appendText path ""))).Preserves
      (Assembly.Guards fun t => t.HoldsSome p G) := by
    refine onFiles_preserves (preserves_holdsSome fun text => ?_)
    exact change_preserves fun t t' ht hwrite => ht.appendText hne hwrite
  intro a ha
  obtain ⟨hok, herror⟩ := hkept.ensures a ha
  refine ⟨fun u a' hrun => ⟨?_, hok u a' hrun⟩, herror⟩
  obtain ⟨t, hchange, -⟩ := runOn_within_eq_ok.1 hrun
  rw [FileTree.change, runOn_ofFunction] at hchange
  split at hchange
  · rename_i t' hwrite
    obtain ⟨q, new, hq, hnode, -⟩ := appendText_eq_ok hwrite
    obtain ⟨text, ht, -⟩ := ha.tree
    rw [← locate_eq hq] at hne ⊢
    exact ht.not_prefix hnode hne
  · cases hchange

theorem addFile_preserves (hs : s.Avoids home p) (level : Level) :
    (s.addFile home level).Preserves (Assembly.Guards fun t => t.HoldsSome p G) := by
  unfold addFile
  refine checked_bind_preserves fun path hpath => ?_
  have hopened : ∀ bound, (do
      onFiles (FileTree.change (·.appendText path ""))
      addHandler (.file path bound s.backups.toInt) level).Preserves
        (Assembly.Guards fun t => t.HoldsSome p G) := by
    intro bound
    refine ((open_ensures (hs.ne path hpath)).bind fun _ => ?_).preserves
    refine Ensures.of_and fun hbelow => (addHandler_preserves ?_).ensures
    exact Handler.keeps_file ⟨hbelow, fun number => hs.aside_ne path number hpath,
      hs.aside_notAbove path hpath⟩ bound level
  have habove : (onFiles (makeDirectories (Path.parent path))).Preserves
      (Assembly.Guards fun t => t.HoldsSome p G) :=
    onFiles_preserves (preserves_holdsSome (makeDirectories_holds _ p))
  dsimp only
  split
  · exact habove.bind fun _ => checked_bind_preserves fun bound _ => hopened bound
  · exact checked_bind_preserves fun bound _ => hopened bound

/-- **What is kept when a log is set up**: what making its file keeps, if it has one. -/
theorem assemble_preserves {now : Instant}
    (hfile : s.toFile.truthy = true → ∀ level,
      (s.addFile home level).Preserves (Assembly.Guards J)) :
    (s.assemble home now).Preserves (Assembly.Guards J) := by
  unfold assemble
  refine checked_bind_preserves fun level _ => ?_
  have hlevel : (modify fun a => { a with logger := { a.logger with level, handlers := some [] } } :
      Action Assembly SetupError PUnit).Preserves (Assembly.Guards J) := by
    refine preserves_modify fun a ha => ⟨ha.tree, fun h hmem => ?_⟩
    cases hmem
  have hrecord : (modify fun a => { a with outlet := a.logger.emit now s.record a.outlet } :
      Action Assembly SetupError PUnit).Preserves (Assembly.Guards J) :=
    preserves_modify fun a ha => ⟨Logger.emit_keeps ha.keeps ha.tree, ha.keeps⟩
  refine Preserves.bind hlevel fun _ => ?_
  dsimp only
  split
  · refine Preserves.bind (addHandler_preserves (Handler.keeps_console _ _)) fun _ => ?_
    split
    · rename_i htoFile
      exact (hfile htoFile level).bind fun _ => hrecord
    · exact hrecord
  · split
    · rename_i htoFile
      exact (hfile htoFile level).bind fun _ => hrecord
    · exact hrecord

end Setup

end GrammarSuite.Log
