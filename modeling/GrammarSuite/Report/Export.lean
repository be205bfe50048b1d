import GrammarSuite.Report.Text
import GrammarSuite.Report.Markdown
import GrammarSuite.Json.Order
import GrammarSuite.Json.Writer
import GrammarSuite.FileTree.Basic

/-!
# Reports in files

The report as JSON, and the writing of reports into a file tree. A file is opened, and emptied,
before its report is made, so that a report that fails leaves an empty file.

## Main definitions

* `Report.json`: the report as JSON
* `Report.stampedName`: a file name with the moment of the report
* `Report.exportJson`: writes the JSON report
* `Report.save`: writes the report in several formats
-/

namespace GrammarSuite

/-- The version that reports name. -/
def version : String := "0.1.0"

/-- Why a report was not written. -/
inductive SaveError
  | file (e : FileError)
  | misuse (m : Json.Misuse)
  deriving DecidableEq, Repr

/-- The wording of a failure. -/
def SaveError.message : SaveError → String
  | file e => e.message
  | misuse m => m.message

/-- A format of a saved report. -/
inductive ReportFormat where
  | text
  | json
  | markdown
  deriving DecidableEq, Repr

namespace ReportFormat

/-- All formats, in the order in which they are written. -/
def all : List ReportFormat := [text, json, markdown]

/-- The name of a format. -/
def name : ReportFormat → String
  | text => "text"
  | json => "json"
  | markdown => "markdown"

/-- The formats whose names a value contains, in the order in which they are written; all of them if
the value is null. -/
def named : Json.Value → Except Json.Misuse (List ReportFormat)
  | .null => .ok all
  | formats => all.filterM fun f => formats.contains f.name

/-- The extension of the files of a format. -/
def extension : ReportFormat → String
  | text => "txt"
  | json => "json"
  | markdown => "md"

end ReportFormat

namespace Report

/-- The report as a JSON value. A configuration that is not set counts as empty. -/
def toJson (r : Report) (now : Instant) (configuration : Json.Value) : Json.Value := .object [
  ("grammar", match r.grammar with
    | some g => g.toJson
    | none => .null),
  ("cases", .list (r.cases.map TestCase.toJson)),
  ("metrics", .object r.figures),
  ("metadata", .object [
    ("generated_at", .text now.iso),
    ("version", .text version),
    ("configuration", if configuration.truthy then configuration else .object [])])]

/-- The report as JSON, indented, with all characters as they are. -/
def json (r : Report) (configuration : Json.Value) : Except Json.Misuse String :=
  r.now >>= fun now => (r.toJson now configuration).written (Json.pretty false 0)

/-- A file name with the moment of the report. -/
def stampedName (name : String) (now : Instant) (extension : String) : String :=
  name ++ "_" ++ now.stamp ++ "." ++ extension

/-- The usual directory of reports. -/
def defaultDirectory : String := "~/.cfgcases/reports"

/-- An action on a file tree, whose failure is one of saving. -/
def saving (x : Action FileTree FileError Unit) : Action FileTree SaveError Unit :=
  x.within id (fun t _ => t) .file

/-- What must be known before something is saved. -/
def known {α : Type} : Except Json.Misuse α → Action FileTree SaveError α
  | .ok a => pure a
  | .error m => throw (.misuse m)

/-- Writes a file anew. -/
def overwrite (path text : String) : Action FileTree SaveError Unit :=
  saving (FileTree.change (·.writeText path text))

/-- Writes a file whose text may fail to be made; the file is emptied first. -/
def writeFile (path : String) (text : Except Json.Misuse String) :
    Action FileTree SaveError Unit := do
  overwrite path ""
  overwrite path (← known text)

/-- The record of an export. -/
def exportRecord (r : Report) (path : String) : Log.Record where
  level := .info
  channel := Log.Channel.report
  message := "Exported " ++ toString r.cases.length ++ " cases to " ++ path

/-- Writes the JSON report to a path, or into the directory under a stamped name if the path is
null, and returns its path. -/
def exportJson (r : Report) (home directory : String) (configuration path : Json.Value) :
    Action FileTree SaveError String := do
  let target ← match path with
    | .null => do
      saving (FileTree.makeDirectories directory)
      let now ← known r.now
      pure (Path.join directory (stampedName "suite" now "json"))
    | path => do
      let path := Path.expandHome home (← known path.pathText)
      let above := Path.parent path
      if above ≠ "" then saving (FileTree.makeDirectories above)
      pure path
  writeFile target (r.json configuration)
  pure target

/-- The text of a report in a format. -/
def render (r : Report) : ReportFormat → Except Json.Misuse String
  | .text => r.text
  | .json => r.json .null
  | .markdown => r.markdown

/-- Writes the report in each format of a list under a common name, and returns the paths. -/
def saveEach (r : Report) (base : String) :
    List ReportFormat → Action FileTree SaveError (List (ReportFormat × String))
  | [] => pure []
  | format :: rest => do
    let path := base ++ "." ++ format.extension
    writeFile path (r.render format)
    let others ← saveEach r base rest
    pure ((format, path) :: others)

/-- Writes the report into a directory, in the formats that a value names, and returns the paths. -/
def save (r : Report) (directory : String) (formats : Json.Value) :
    Action FileTree SaveError (List (ReportFormat × String)) := do
  saving (FileTree.makeDirectories directory)
  let now ← known r.now
  let chosen ← known (ReportFormat.named formats)
  saveEach r (Path.join directory ("suite_report_" ++ now.stamp)) chosen

/-- The record of saved reports. -/
def saveRecord (saved : List (ReportFormat × String)) : Log.Record where
  level := .debug
  channel := Log.Channel.report
  message := "Saved report files: " ++ Text.quotedPairs (saved.map fun (f, path) => (f.name, path))

end Report

end GrammarSuite
