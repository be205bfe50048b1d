import GrammarSuite.CommandLine.Program

/-!
# The files of a run

Which files a run of the program may read or write, and what a run has changed. A program that
works on a value of a file tree reads these files first and writes the changes back.

## Main definitions

* `Program.settingsPath`, `Program.paths`: the files of a run
* `FileTree.observe`: a tree with what was found at a path
* `FileChange`, `FileTree.changes`: what has been changed
-/

namespace GrammarSuite

namespace FileTree

/-- The starts of a path, each with one more part. -/
def starts (path : String) : List String :=
  let parts := (path.toList.splitOn '/').map String.ofList
  ((List.range parts.length).map fun k => "/".intercalate (parts.take (k + 1))).filter (· ≠ "")

/-- A tree with what was found at a path. -/
def observe (t : FileTree) (path : String) (found : Option Node) : FileTree :=
  match found, t.locate path with
  | some node, .ok place => if isBase place then t else t.put place node
  | _, _ => t

end FileTree

/-- A change of a file tree. -/
inductive FileChange where
  | directory (path : String)
  | write (path text : String)
  | delete (path : String)
  deriving DecidableEq, Repr

namespace FileTree

/-- What is new or different at a place. -/
def changeAt (before : FileTree) (place : Place) (node : Node) : Option FileChange :=
  if before.node? place = some node then none
  else
    match node with
    | .directory => some (.directory (placePath place))
    | .file text => some (.write (placePath place) text)

/-- The changes from one tree to another: what is gone, and then what is new or different. -/
def changes (before after : FileTree) : List FileChange :=
  let gone := before.nodes.filterMap fun (place, _) =>
    if (after.node? place).isSome then none else some (.delete (placePath place))
  gone ++ after.nodes.filterMap fun (place, node) => before.changeAt place node

end FileTree

namespace CommandLine.Program

/-- The file of settings of a run. -/
def settingsPath (env : Environment) (o : Options) : String :=
  Settings.filePath <|
    Path.expandHome env.home <| match o.configDirectory with
      | .text path => path
      | _ => Settings.usualDirectory env.home

/-- The files of a run with settings, which are those before the options. -/
def paths (env : Environment) (o : Options) (s : Settings) : List String :=
  let s := match o.changed s with
    | .ok s => s
    | .error _ => s
  let log := Path.expandHome env.home o.logFile.display
  let setup : Log.Setup := {}
  let aside := (List.range setup.backups.toInt.toNat).map fun k => Log.Outlet.asidePath log (k + 1)
  let directory := Path.expandHome env.home (s.value "output_dir").display
  let reports := match env.now with
    | .ok now =>
      Report.stampedName "suite" now "json" :: ReportFormat.all.map fun (f : ReportFormat) =>
        Report.stampedName "suite_report" now f.extension
    | .error _ => []
  let grammar := match s.value "grammar_file" with
    | .text path => [Path.expandHome env.home path]
    | _ => []
  let exported := o.exportTo.toList.map (Path.expandHome env.home)
  settingsPath env o :: log :: aside ++ grammar ++ exported ++
    reports.map (Path.join directory)

end CommandLine.Program

end GrammarSuite
