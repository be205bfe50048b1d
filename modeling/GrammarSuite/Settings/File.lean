import GrammarSuite.Settings.Basic
import GrammarSuite.Json.Writer
import GrammarSuite.FileTree.Basic
import GrammarSuite.Action

/-!
# The file of settings

Settings are kept as a JSON object in a file of a directory, which is made if it is not there. If
there is no file, loading writes one with the usual settings.

## Main definitions

* `Settings.load`: the settings of a directory
* `Settings.save`: writes the settings into their directory
-/

namespace GrammarSuite.Settings

open Json (Value)

/-- The directory of settings where none is given. -/
def usualDirectory (home : String) : String :=
  Path.join (Path.expandHome home "~") ".cfgcases"

/-- Makes the directory of settings, and returns its path. -/
def makeDirectory (home : String) (directory : Value) : Action FileTree SettingsError String := do
  let given := if isNull directory then .text (usualDirectory home) else directory
  match expandPath home given with
  | .error e => throw e
  | .ok path => do
    (FileTree.makeDirectories path).within id (fun t _ => t) .directory
    pure path

/-- The file of settings in a directory. -/
def filePath (directory : String) : String := Path.join directory "config.json"

/-- The text of a file of settings. -/
def fileText (values : Value) : String := Json.pretty true 0 values

/-- Writes the text of a file of settings. -/
def write (path text : String) (wrap : FileError → ConfigError) :
    Action FileTree SettingsError Unit :=
  (FileTree.change (·.writeText path text)).within id (fun t _ => t) fun e => .config (wrap e)

/-- The values in a file of settings. -/
def readValues (t : FileTree) (path : String) : Except SettingsError (Table String Value) :=
  match t.readText path with
  | .error e => .error (.config (.unreadable path e))
  | .ok text =>
    match Json.read text with
    | .error f => .error (if f.problem.isLimit then .limit f else .config (.malformed path f))
    | .ok (.object fields) => .ok fields
    | .ok _ => .error (.config (.notObject path))

/-- The settings of a directory. -/
def load (home : String) (directory : Value) : Action FileTree SettingsError Settings := do
  let directory ← makeDirectory home directory
  let path := filePath directory
  let t ← get
  if t.has path then
    MonadExcept.ofExcept (readValues t path >>= ofValues home (some (.text directory)))
  else do
    write path (fileText (.object defaults)) (.defaultUnwritable path)
    MonadExcept.ofExcept (ofValues home (some (.text directory)) defaults)

/-- Writes the settings into their directory, and returns the path of the file. The file is emptied
before the values are looked at. -/
def save (s : Settings) (home : String) : Action FileTree SettingsError String := do
  let directory ← MonadExcept.ofExcept (s.member directoryName)
  let path := filePath (← makeDirectory home directory)
  match s.values with
  | .ok values => write path (fileText values) .unwritable
  | .error e => do
    write path "" .unwritable
    throw e
  pure path

end GrammarSuite.Settings
