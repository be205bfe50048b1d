import GrammarSuite.Report.Export
import GrammarSuite.Proofs.Case.Labelling
import GrammarSuite.Proofs.FileTree.Kept

/-!
# What reports leave alone

Reports are written under stamped names, unless a path is given for an export. So a file whose name
does not start as theirs stays as it is, unless the path leads to it.

## Main definitions

* `Report.formatPath`: the path of the file of a format

## Main results

* `exportJson_preserves`, `save_preserves`: what stays when a report is exported, and when it is
  saved
-/

namespace GrammarSuite

open FileTree GrammarSuite.Action

/-- A stamp consists of digits and a low line. -/
theorem Instant.mem_stamp {i : Instant} {c : Char} (h : c ∈ i.stamp.toList) :
    c.isDigit = true ∨ c = '_' := by
  have hline : "_".toList = ['_'] := rfl
  simp only [stamp, String.toList_append, List.mem_append, hline, List.mem_singleton, or_assoc] at h
  rcases h with h | h | h | h | h | h | h
  · exact .inl (Nat.isDigit_of_mem_toDigits (b := 10) (by decide) (by decide) (by simpa using h))
  · exact .inl (isDigit_of_mem_padded h)
  · exact .inl (isDigit_of_mem_padded h)
  · exact .inr h
  · exact .inl (isDigit_of_mem_padded h)
  · exact .inl (isDigit_of_mem_padded h)
  · exact .inl (isDigit_of_mem_padded h)

theorem Instant.slash_notMem_stamp (i : Instant) : '/' ∉ i.stamp.toList := fun h =>
  (mem_stamp h).elim (by decide) (by decide)

namespace Report

variable {r : Report} {p : Place} {text home directory : String} {configuration path : Json.Value}

/-- How the names of reports start. -/
def nameStart : List Char := "suite".toList

section

variable {I : FileTree → Prop}

theorem saving_preserves {x : Action FileTree FileError Unit} (hx : x.Preserves I) :
    (saving x).Preserves I :=
  Preserves.within hx (fun _ h => h) fun _ _ _ h => h

theorem known_bind_preserves {α β : Type} {x : Except Json.Misuse α}
    {k : α → Action FileTree SaveError β} (hk : ∀ a, x = .ok a → (k a).Preserves I) :
    (known x >>= k).Preserves I := by
  cases x with
  | ok a => exact hk a rfl
  | error m => exact .throw _

/-- What is kept when anything is written to a path is kept when a file is made there. -/
theorem writeFile_preserves {path : String} {content : Except Json.Misuse String}
    (h : ∀ t t' new, I t → t.writeText path new = .ok t' → I t') :
    (writeFile path content).Preserves I := by
  have hwrite : ∀ new, (overwrite path new).Preserves I := fun new =>
    saving_preserves (change_preserves fun t t' ht hwrite => h t t' new ht hwrite)
  exact (hwrite "").bind fun _ => known_bind_preserves fun new _ => hwrite new

end

theorem nameStart_stamped {start : String} (h : nameStart <+: start.toList) (now : Instant)
    (extension : String) : nameStart <+: (stampedName start now extension).toList := by
  simp only [stampedName, String.append_assoc, String.toList_append]
  exact h.trans (List.prefix_append _ _)

/-- A stamped name is a name. -/
theorem isName_stamped {start extension : String} {c : Char} (now : Instant)
    (hstart : '/' ∉ start.toList) (hextension : '/' ∉ extension.toList)
    (hlast : extension.toList.getLast? = some c) (hc : c ≠ '.') :
    Path.IsName (stampedName start now extension) := by
  refine Path.isName_of_getLast? (c := c) ?_ ?_ hc
  · simp [stampedName, hstart, hextension, now.slash_notMem_stamp]
  · simp only [stampedName, String.toList_append]
    rw [List.getLast?_append, hlast, Option.some_or]

/-- The path of the file of a format. -/
def formatPath (base : String) (format : ReportFormat) : String := base ++ "." ++ format.extension

/-- The place of the file of a format ends with its stamped name. -/
theorem getLast?_place_formatPath (directory : String) (now : Instant) (format : ReportFormat) :
    (Path.place (formatPath (Path.join directory ("suite_report_" ++ now.stamp)) format)).getLast? =
      some (stampedName "suite_report" now format.extension) := by
  have hname : Path.IsName (stampedName "suite_report" now format.extension) := by
    cases format <;> exact isName_stamped now (by decide) (by decide) rfl (by decide)
  have hstamped : "suite_report_" ++ now.stamp ++ ("." ++ format.extension) =
      stampedName "suite_report" now format.extension := by
    simp [stampedName, String.append_assoc]
  rw [formatPath, String.append_assoc, Path.join_append _ (by simp), hstamped]
  exact Path.getLast?_place_join directory hname

/-- A name behind the start of the names of reports. -/
theorem place_join_ne (hp : ∀ name, p.getLast? = some name → ¬ nameStart <+: name.toList)
    {name : String} (hstart : nameStart <+: name.toList) (hname : Path.IsName name) :
    Path.place (Path.join directory name) ≠ p := by
  rintro rfl
  exact hp name (Path.getLast?_place_join directory hname) hstart

variable (hp : ∀ name, p.getLast? = some name → ¬ nameStart <+: name.toList)

include hp

/-- **What stays when a report is exported.** -/
theorem exportJson_preserves
    (hpath : ∀ s, path = .text s → Path.place (Path.expandHome home s) ≠ p) :
    (r.exportJson home directory configuration path).Preserves fun t => t.Holds p text := by
  have hwrite : ∀ target, Path.place target ≠ p →
      (writeFile target (r.json configuration) >>= fun _ => pure target).Preserves
        fun t : FileTree => t.Holds p text := fun target h =>
    (writeFile_preserves fun _ _ _ ht hwrite => ht.writeText h hwrite).bind fun _ => .pure _
  have hmake : ∀ path, (saving (makeDirectories path)).Preserves fun t => t.Holds p text :=
    fun path => saving_preserves (makeDirectories_holds path p text)
  unfold exportJson
  dsimp only
  split
  · refine (hmake directory).bind fun _ => known_bind_preserves fun now _ => ?_
    rw [pure_bind]
    refine hwrite _ (place_join_ne hp (nameStart_stamped List.prefix_rfl now "json") ?_)
    exact isName_stamped now (by decide) (by decide) rfl (by decide)
  · refine known_bind_preserves fun s hs => ?_
    have hne : Path.place (Path.expandHome home s) ≠ p := by
      cases path <;> cases hs
      exact hpath s rfl
    simp only [pure_bind]
    split
    · exact (hmake _).bind fun _ => hwrite _ hne
    · exact hwrite _ hne

theorem saveEach_preserves {now : Instant} (formats : List ReportFormat) :
    (r.saveEach (Path.join directory ("suite_report_" ++ now.stamp)) formats).Preserves
      fun t => t.Holds p text := by
  induction formats with
  | nil => exact .pure _
  | cons format formats ih =>
    have hne : Path.place (formatPath (Path.join directory ("suite_report_" ++ now.stamp)) format) ≠
        p := by
      have hstart : nameStart <+: "suite_report".toList := by decide
      rintro rfl
      exact hp _ (getLast?_place_formatPath directory now format) (nameStart_stamped hstart now _)
    have hfile : (writeFile (formatPath (Path.join directory ("suite_report_" ++ now.stamp)) format)
        (r.render format)).Preserves fun t => t.Holds p text :=
      writeFile_preserves fun _ _ _ ht hwrite => ht.writeText hne hwrite
    exact hfile.bind fun _ => ih.bind fun _ => .pure _

/-- **What stays when a report is saved.** -/
theorem save_preserves (formats : Json.Value) :
    (r.save directory formats).Preserves fun t => t.Holds p text := by
  have hmake : (saving (makeDirectories directory)).Preserves fun t => t.Holds p text :=
    saving_preserves (makeDirectories_holds directory p text)
  unfold save
  refine hmake.bind fun _ => known_bind_preserves fun now _ => ?_
  exact known_bind_preserves fun chosen _ => saveEach_preserves hp chosen

end Report

end GrammarSuite
