import GrammarSuite.Proofs.Report.Files
import Mathlib.Data.List.Nodup

/-!
# What saving a report writes

A saved report is written once for each format that is asked for, whatever else is asked for and
however often. Each file holds the report in its format, also where there was a file before, and
nothing else changes but the directories on the way, which are made where they are missing. The
files do not overwrite each other, since they end with different extensions.

## Main results

* `ReportFormat.mem_named_iff`: the formats that are asked for
* `Report.writeFile_eq_ok`, `Report.saveEach_eq_ok`: what one file, and what all files change
* `Report.save_writes_what_is_asked_for`: what saving a report changes
-/

namespace GrammarSuite

open FileTree GrammarSuite.Action

namespace ReportFormat

variable {v : Json.Value} {chosen : List ReportFormat} {f : ReportFormat}

theorem mem_all (f : ReportFormat) : f ∈ all := by cases f <;> decide

theorem extension_injective {f g : ReportFormat} (h : f.extension = g.extension) : f = g := by
  cases f <;> cases g <;> first | rfl | exact absurd h (by decide)

/-- The formats that a test lets through. -/
theorem filterM_all_eq_ok {test : ReportFormat → Except Json.Misuse Bool}
    (h : all.filterM test = .ok chosen) : chosen = all.filter fun f => test f = .ok true := by
  simp only [all, List.filterM, List.filterAuxM, bind_eq_ok_iff] at h
  obtain ⟨reversed, ⟨inText, htext, inJson, hjson, inMarkdown, hmarkdown, hreversed⟩, h⟩ := h
  obtain rfl := Except.ok.inj h
  obtain rfl := Except.ok.inj hreversed
  cases inText <;> cases inJson <;> cases inMarkdown <;>
    simp [all, htext, hjson, hmarkdown]

/-- **The formats that are asked for.** -/
theorem mem_named_iff (h : named v = .ok chosen) :
    chosen.Nodup ∧ ∀ f, f ∈ chosen ↔ v = .null ∨ v.contains f.name = .ok true := by
  have hall : all.Nodup := by decide
  by_cases hnull : v = .null
  · subst hnull
    cases h
    exact ⟨hall, fun f => iff_of_true (mem_all f) (.inl rfl)⟩
  · have htests : all.filterM (fun f => v.contains f.name) = .ok chosen := by
      rw [← h]
      cases v <;> first | rfl | exact absurd rfl hnull
    obtain rfl := filterM_all_eq_ok htests
    refine ⟨hall.filter _, fun f => ?_⟩
    simp [hnull, mem_all]

end ReportFormat

namespace Report

variable {r : Report} {t t' : FileTree} {base path directory : String} {n : Node}

theorem saving_eq_ok {x : Action FileTree FileError Unit}
    (h : (saving x).runOn t = (.ok (), t')) : x.runOn t = (.ok (), t') := by
  obtain ⟨u, hx, rfl⟩ := runOn_within_eq_ok.1 h
  exact hx

theorem overwrite_eq_ok {new : String} (h : (overwrite path new).runOn t = (.ok (), t')) :
    t.writeText path new = .ok t' := by
  have hchange := saving_eq_ok h
  rw [change, runOn_ofFunction] at hchange
  split at hchange
  · rename_i u hu
    obtain rfl := (Prod.mk.inj hchange).2
    exact hu
  · cases hchange

theorem known_eq_ok {α : Type} {x : Except Json.Misuse α} {a : α}
    (h : (known x).runOn t = (.ok a, t')) : x = .ok a ∧ t' = t := by
  cases x with
  | ok b =>
    obtain ⟨hb, rfl⟩ := Prod.mk.inj h
    exact ⟨congrArg Except.ok (Except.ok.inj hb), rfl⟩
  | error m => cases h

/-- **What writing a file changes**: the file at the end of its path. -/
theorem writeFile_eq_ok {content : Except Json.Misuse String}
    (h : (writeFile path content).runOn t = (.ok (), t')) :
    (∃ s, content = .ok s ∧ t'.at? path = some (.file s)) ∧
      ∀ p, Path.place path ≠ p → t'.node? p = t.node? p := by
  obtain ⟨_, t₁, hempty, hrest⟩ := runOn_bind_eq_ok.1 h
  obtain ⟨s, t₂, hknown, hwrite⟩ := runOn_bind_eq_ok.1 hrest
  obtain ⟨hs, rfl⟩ := known_eq_ok hknown
  have hfirst := overwrite_eq_ok hempty
  have hlast := overwrite_eq_ok hwrite
  refine ⟨⟨s, hs, at?_of_writeText hlast⟩, fun p hp => ?_⟩
  obtain ⟨q₁, hq₁, -, rfl⟩ := writeText_eq_ok hfirst
  obtain ⟨q₂, hq₂, -, rfl⟩ := writeText_eq_ok hlast
  rw [locate_eq hq₁, locate_eq hq₂, node?_put_of_ne hp.symm, node?_put_of_ne hp.symm]

/-- What is at the end of a path stays there when the files of formats are written elsewhere. -/
theorem saveEach_at? {formats : List ReportFormat}
    (h : ∀ f ∈ formats, Path.place (formatPath base f) ≠ Path.place path) :
    (r.saveEach base formats).Preserves fun t => t.at? path = some n := by
  induction formats with
  | nil => exact .pure _
  | cons f formats ih =>
    obtain ⟨hf, hformats⟩ := List.forall_mem_cons.1 h
    have hfile : (writeFile (formatPath base f) (r.render f)).Preserves
        fun t => t.at? path = some n :=
      writeFile_preserves fun _ _ _ ht hwrite => at?_writeText ht hf hwrite
    exact hfile.bind fun _ => (ih hformats).bind fun _ => .pure _

/-- **What writing the files of formats changes**, where their places are not the same: each holds
the report in its format, and nothing else changes. -/
theorem saveEach_eq_ok {formats : List ReportFormat} {saved : List (ReportFormat × String)}
    (hnodup : formats.Nodup)
    (hplaces : Function.Injective fun f => Path.place (formatPath base f))
    (h : (r.saveEach base formats).runOn t = (.ok saved, t')) :
    saved = formats.map (fun f => (f, formatPath base f)) ∧
    (∀ f ∈ formats, ∃ s, r.render f = .ok s ∧ t'.at? (formatPath base f) = some (.file s)) ∧
    ∀ p, (∀ f ∈ formats, Path.place (formatPath base f) ≠ p) → t'.node? p = t.node? p := by
  induction formats generalizing t saved with
  | nil =>
    obtain ⟨hsaved, rfl⟩ := Prod.mk.inj h
    exact ⟨(Except.ok.inj hsaved).symm, by simp, fun _ _ => rfl⟩
  | cons f formats ih =>
    obtain ⟨hf, hformats⟩ := List.nodup_cons.1 hnodup
    obtain ⟨_, t₁, hfile, h⟩ := runOn_bind_eq_ok.1 h
    obtain ⟨others, t₂, hrest, h⟩ := runOn_bind_eq_ok.1 h
    obtain ⟨hsaved, rfl⟩ := Prod.mk.inj h
    obtain ⟨hothers, hwritten, hkept⟩ := ih hformats hrest
    obtain ⟨⟨s, hs, hat⟩, hframe⟩ := writeFile_eq_ok hfile
    refine ⟨?_, List.forall_mem_cons.2 ⟨⟨s, hs, ?_⟩, hwritten⟩, fun p hp => ?_⟩
    · rw [← Except.ok.inj hsaved, hothers]
      rfl
    · -- The files that come later are at other places.
      have hlater : ∀ g ∈ formats,
          Path.place (formatPath base g) ≠ Path.place (formatPath base f) := by
        intro g hg hplace
        exact hf (hplaces hplace ▸ hg)
      have hstays := saveEach_at? (r := r) (n := .file s) hlater t₁ hat
      rwa [hrest] at hstays
    · obtain ⟨hpf, hpformats⟩ := List.forall_mem_cons.1 hp
      rw [hkept p hpformats, hframe p hpf]

/-- What making directories changes: there are directories on the way where there was nothing. -/
theorem node?_of_makeDirectories (h : (makeDirectories directory).runOn t = (.ok (), t')) (p : Place) :
    t'.node? p = t.node? p ∨
      t.node? p = none ∧ t'.node? p = some .directory ∧ Path.Passes directory p := by
  have hkept : (makeDirectories directory).Preserves fun u : FileTree => ∀ p,
      u.node? p = t.node? p ∨
        t.node? p = none ∧ u.node? p = some .directory ∧ Path.Passes directory p := by
    refine makeDirectories_preserves fun u q hu hq hpasses p => ?_
    by_cases hp : p = q
    · subst hp
      have hnone : t.node? p = none := by
        rcases hu p with hsame | ⟨hnone, -, -⟩
        · rw [← hsame, hq]
        · exact hnone
      exact .inr ⟨hnone, node?_put_self (isBase_of_node? (by rw [hq]; simp)), hpasses⟩
    · rw [node?_put_of_ne hp]
      exact hu p
  have hstart := hkept t fun _ => .inl rfl
  rw [h] at hstart
  exact hstart p

/-- The files of a report have places of their own. -/
theorem place_formatPath_injective (directory : String) (now : Instant) : Function.Injective
    fun f => Path.place (formatPath (Path.join directory ("suite_report_" ++ now.stamp)) f) := by
  intro f g h
  have hlast := congrArg List.getLast? h
  dsimp only at hlast
  rw [getLast?_place_formatPath, getLast?_place_formatPath, Option.some.injEq, stampedName,
    stampedName] at hlast
  exact ReportFormat.extension_injective (by simpa [← String.toList_inj] using hlast)

/-- **Saving a report writes what is asked for, and nothing else.** There is one file for each
format whose name the value of formats contains, for all formats if it is null; a list contains the
names that are among its items, however often and next to whatever others. At the end of each path
is the report in its format, whatever was there before, and the paths lead to different places. At
every other place is what was there, or a directory on the way to that of the reports where there
was nothing. -/
theorem save_writes_what_is_asked_for {formats : Json.Value} {saved : List (ReportFormat × String)}
    (h : (r.save directory formats).runOn t = (.ok saved, t')) :
    (saved.map Prod.fst).Nodup ∧
    (∀ f, f ∈ saved.map Prod.fst ↔ formats = .null ∨ formats.contains f.name = .ok true) ∧
    (∀ items, formats = .list items → ∀ f, f ∈ saved.map Prod.fst ↔ .text f.name ∈ items) ∧
    (∀ f path, (f, path) ∈ saved →
      ∃ s, r.render f = .ok s ∧ t'.at? path = some (.file s)) ∧
    (saved.map Prod.snd).Nodup ∧ ((saved.map Prod.snd).map Path.place).Nodup ∧
    ∀ p, p ∉ (saved.map Prod.snd).map Path.place →
      t'.node? p = t.node? p ∨
        t.node? p = none ∧ t'.node? p = some .directory ∧ Path.Passes directory p := by
  obtain ⟨_, t₁, hmade, hmoment⟩ := runOn_bind_eq_ok.1 h
  obtain ⟨now, t₂, hnow, hrest⟩ := runOn_bind_eq_ok.1 hmoment
  obtain ⟨-, rfl⟩ := known_eq_ok hnow
  obtain ⟨chosen, t₃, hchosen, hsaved⟩ := runOn_bind_eq_ok.1 hrest
  obtain ⟨hnamed, rfl⟩ := known_eq_ok hchosen
  obtain ⟨hnodup, hmem⟩ := ReportFormat.mem_named_iff hnamed
  have hinjective := place_formatPath_injective directory now
  obtain ⟨rfl, hfiles, hkept⟩ := saveEach_eq_ok hnodup hinjective hsaved
  generalize Path.join directory ("suite_report_" ++ now.stamp) = base at *
  have hformats : (chosen.map fun f => (f, formatPath base f)).map Prod.fst = chosen := by
    simp [List.map_map, Function.comp_def]
  have hplaces : (((chosen.map fun f => (f, formatPath base f)).map Prod.snd).map
      Path.place).Nodup := by
    rw [List.map_map, List.map_map]
    exact List.Nodup.map hinjective hnodup
  rw [hformats]
  refine ⟨hnodup, hmem, ?_, ?_, List.Nodup.of_map _ hplaces, hplaces, fun p hp => ?_⟩
  · rintro items rfl f
    simp [hmem, Json.Value.contains]
  · intro f path hpath
    obtain ⟨g, hg, hpair⟩ := List.mem_map.1 hpath
    obtain ⟨rfl, rfl⟩ := Prod.mk.inj hpair
    exact hfiles g hg
  · rw [hkept p fun f hf hplace => hp ?_]
    · exact node?_of_makeDirectories (saving_eq_ok hmade) p
    · rw [← hplace]
      exact List.mem_map_of_mem (List.mem_map_of_mem (List.mem_map_of_mem hf))

/-- A directory with a report of the same second and another file. -/
def oldReports : FileTree := FileTree.ofFiles
  [("out/suite_report_20240131_120001.json", some "old"), ("out/notes.txt", some "mine")]

/-- A report of that second, with a single figure. -/
def shortReport : Report where
  cases := []
  figures := [("total_cases", .int 0)]
  now := .ok ⟨2024, 1, 31, 12, 0, 1, 0, none⟩

/-- Formats of which one is asked for twice, and one is not known. -/
def repeatedFormats : Json.Value := .list [.text "json", .text "pdf", .text "json"]

theorem shortReport_writes_what_is_asked_for :
    ∃ saved t', (shortReport.save "out" repeatedFormats).runOn oldReports = (.ok saved, t') ∧
      saved = [(.json, "out/suite_report_20240131_120001.json")] ∧
      (∃ s, shortReport.json .null = .ok s ∧
        t'.at? "out/suite_report_20240131_120001.json" = some (.file s)) ∧
      t'.node? ["out", "notes.txt"] = some (.file "mine") := by
  have hsaved : ((shortReport.save "out" repeatedFormats).runOn oldReports).1 =
      .ok [(.json, "out/suite_report_20240131_120001.json")] := by decide +kernel
  rcases hrun : (shortReport.save "out" repeatedFormats).runOn oldReports with ⟨result, t'⟩
  rw [hrun] at hsaved
  obtain rfl : result = _ := hsaved
  obtain ⟨-, -, -, hfiles, -, -, hkept⟩ := save_writes_what_is_asked_for hrun
  refine ⟨_, t', rfl, rfl, hfiles .json _ List.mem_cons_self, ?_⟩
  have hmine : oldReports.node? ["out", "notes.txt"] = some (.file "mine") := by decide +kernel
  rcases hkept ["out", "notes.txt"] (by decide +kernel) with hsame | ⟨hnone, -, -⟩
  · rw [hsame, hmine]
  · rw [hmine] at hnone
    cases hnone

end Report

end GrammarSuite
