import GrammarSuite.Json.Entries
import GrammarSuite.Json.Reader
import GrammarSuite.FileTree.Basic
import GrammarSuite.Random.Seed
import GrammarSuite.Run.Basic

/-!
# Settings

The settings of the generator: JSON values by name, the usual ones and any others. They are not
checked when they are made, changed or read, but by `Settings.validate`. Names that start with an
underscore are no settings but members of the settings, and their values are never saved. Two of the
members are the table of values and the directory. A value of another kind may take the place of the
table: it is kept and saved, but settings are not found in it. The members as a whole have a name of
their own, under which they are read and replaced. A member that is there hides the setting of its
name.

## Main definitions

* `Settings`: the members, among them the values by name and the directory of the settings file
* `ConfigError`, `SettingsError`: what can be wrong with settings
* `Settings.ofValues`, `Settings.ofNamed`: the usual settings with some values changed
* `Settings.value`, `Settings.read`, `Settings.lookup`: reading
* `Settings.assign`, `Settings.updateNamed`: changing
* `Settings.toJson`: the values by name
* `Settings.validate`: the check
* `Settings.plan`, `Settings.source`: the plan of a run and its source of random numbers
-/

namespace GrammarSuite

open Json (Misuse Value)

/-- A fault of settings or of their file. -/
inductive ConfigError
  /-- A file of settings cannot be opened. -/
  | unreadable (path : String) (e : FileError)
  /-- A file of settings is no JSON. -/
  | malformed (path : String) (f : Json.Fault)
  /-- A file of settings holds another JSON value than an object. -/
  | notObject (path : String)
  | defaultUnwritable (path : String) (e : FileError)
  | unwritable (e : FileError)
  /-- The greatest depth is below one. -/
  | tooShallow (depth : Value)
  /-- A count is negative. -/
  | negative (name : String) (count : Value)
  | noIdentifier

/-- The wording of a fault. -/
def ConfigError.message : ConfigError → String
  | unreadable path e => "Failed to load config from " ++ path ++ ": " ++ e.message
  | malformed path f => "Failed to load config from " ++ path ++ ": " ++ f.message
  | notObject path => "Config file " ++ path ++ " must contain a JSON object"
  | defaultUnwritable path e =>
    "Failed to write default config to " ++ path ++ ": " ++ e.message
  | unwritable e => "Failed to save config: " ++ e.message
  | tooShallow v => "max_depth must be at least 1, got " ++ v.display
  | negative name v => name ++ " must not be negative, got " ++ v.display
  | noIdentifier => "identifier must not be empty"

/-- A failure of an operation on settings: a fault that is reported as one of the settings, or
another one. -/
inductive SettingsError
  | config (e : ConfigError)
  /-- The directory of the settings cannot be made. -/
  | directory (e : FileError)
  /-- A value is used in a way that its kind does not allow. -/
  | misuse (m : Misuse)
  /-- A file of settings is beyond a limit of the reader. -/
  | limit (f : Json.Fault)
  | unknown (name : String)
  /-- There is no member of a name. -/
  | unset (name : String)
  /-- A name has a value that cannot be replaced. -/
  | fixed (name : String)

/-- The wording of a failure. -/
def SettingsError.message : SettingsError → String
  | config e => e.message
  | directory e => e.message
  | misuse m => m.message
  | limit f => f.message
  | unknown name => "'GeneratorConfig' object has no attribute '" ++ name ++ "'"
  | unset name => name
  | fixed name => "attribute '" ++ name ++ "' of 'GeneratorConfig' objects is not writable"

/-- The settings of the generator: their members by name. -/
structure Settings where
  members : Table String Value

namespace Settings

/-- The usual settings. -/
def defaults : Table String Value := [
  ("max_depth", .int 20),
  ("valid_count", .int 5),
  ("invalid_count", .int 5),
  ("extreme_per_kind", .int 1),
  ("seed", .null),
  ("identifier", .text "id"),
  ("grammar", .text "arithmetic"),
  ("grammar_file", .null),
  ("output_dir", .text "~/.cfgcases/reports"),
  ("log_level", .text "INFO"),
  ("tui", .bool false)]

/-- Whether a name is one of a member. -/
def isMember (name : String) : Bool := name.toList.head? == some '_'

/-- The name of the table of values. -/
def valuesName : String := "_data"

/-- The name of the directory. -/
def directoryName : String := "_app_dir"

/-- The name of the members as a whole. -/
def membersName : String := "__dict__"

/-- The name of the kind of settings. -/
def className : String := "__class__"

/-- A name whose value is always null. -/
def nullName : String := "__weakref__"

/-- What stands under the names of members that are not there. -/
def unstated : Table String Value := [("__module__", .text "config"), ("__doc__", .null)]

/-- Settings with a table of values and a directory, where null stands for the usual one. -/
def ofParts (values : Table String Value) (directory : Value) : Settings :=
  ⟨[(valuesName, .object values), (directoryName, directory)]⟩

/-- The member of a name. -/
def member (s : Settings) (name : String) : Except SettingsError Value :=
  match s.members.get? name with
  | some v => .ok v
  | none => .error (.unset name)

/-- The values by name: an object, unless another value took its place. -/
def values (s : Settings) : Except SettingsError Value := s.member valuesName

/-- The value of a setting, or null if it is not set. -/
def value (s : Settings) (name : String) : Value :=
  match s.values with
  | .ok values => (values.field? name).getD .null
  | .error _ => .null

/-- The value of a setting, or another value if it is not set. Its name may be any value that can be
a key. -/
def read (s : Settings) (name otherwise : Value) : Except SettingsError Value := do
  match ← s.values with
  | .object fields =>
    name.checkKey.mapError .misuse
    match name with
    | .text name => pure ((Table.get? name fields).getD otherwise)
    | _ => pure otherwise
  | v => throw (.misuse (.notSettings v.typeName))

/-- The value of a name in a table of values. -/
def entry (name : String) (values : Value) : Except SettingsError Value :=
  (values.under name).mapError .misuse

/-- The setting of a name. -/
def setting (s : Settings) (name : String) : Except SettingsError Value := do
  let values ← s.values
  if ← (values.contains name).mapError .misuse then entry name values
  else throw (.unknown name)

/-- The value of a name. -/
def lookup (s : Settings) (name : String) : Except SettingsError Value :=
  if name = membersName then .ok (.object s.members)
  else if name = nullName then .ok .null
  else
    match s.members.get? name, unstated.get? name with
    | some v, _ => .ok v
    | none, some v => .ok v
    | none, none => if isMember name then .error (.unset name) else s.setting name

/-- Values with a value under a name. -/
def put (name : String) (v : Value) : Value → Except Misuse Value
  | .object fields => .ok (.object (Table.insert name v fields))
  | .list _ => .error (.notListPosition (Value.text name).typeName)
  | values => .error (.unchangeable values.typeName)

/-- Settings with a value for a setting. -/
def withSetting (s : Settings) (name : String) (v : Value) : Except SettingsError Settings := do
  let values ← (put name v (← s.values)).mapError .misuse
  pure ⟨s.members.insert valuesName values⟩

/-- Settings with a value for a name. -/
def assign (s : Settings) (name : String) (v : Value) : Except SettingsError Settings :=
  if !isMember name then s.withSetting name v
  else if name = membersName then
    match v with
    | .object fields => .ok ⟨fields⟩
    | v => .error (.misuse (.notMembers v.typeName))
  else if name = className then .error (.misuse (.notClass v.typeName))
  else if name = nullName then .error (.fixed name)
  else .ok ⟨s.members.insert name v⟩

/-- Whether a value is null. -/
def isNull : Value → Bool
  | .null => true
  | _ => false

/-- Settings with the values of a table, except where they are null. -/
def update (s : Settings) (changes : Table String Value) : Except SettingsError Settings :=
  (changes.filter fun (_, v) => !isNull v).foldlM (fun s (name, v) => s.withSetting name v) s

/-- Settings with the named values of an object, unless the operation has another use for one of the
names. -/
def updateNamed (s : Settings) (changes : Value) : Except SettingsError Settings := do
  let changes ← (changes.named "config.GeneratorConfig.update()").mapError .misuse
  if (Table.get? "self" changes).isSome then
    throw (.misuse (.repeatedArgument "GeneratorConfig.update()" "self"))
  s.update changes

/-- A path with the home directory in place of a leading tilde. -/
def expandPath (home : String) (v : Value) : Except SettingsError String :=
  (v.pathText.map (Path.expandHome home)).mapError .misuse

/-- The usual settings with the values of a table, and their paths with the home directory. A
grammar file that counts as unset stays as it is. -/
def ofTable (home : String) (directory : Value) (changes : Table String Value) :
    Except SettingsError Settings := do
  let s := ofParts (Table.merge defaults changes) directory
  let s ← s.withSetting "output_dir" (.text (← expandPath home (s.value "output_dir")))
  let file := s.value "grammar_file"
  if file.truthy then s.withSetting "grammar_file" (.text (← expandPath home file))
  else pure s

/-- The usual settings with named values. Two names have another use: one of them is that of the
directory, unless the directory is given apart. -/
def ofValues (home : String) (directory : Option Value) (changes : Table String Value) :
    Except SettingsError Settings :=
  match directory, changes.get? "app_dir" with
  | some _, some _ =>
    .error (.misuse (.repeatedName "config.GeneratorConfig()" "app_dir"))
  | given, named =>
    if (changes.get? "self").isSome then
      .error (.misuse (.repeatedArgument "GeneratorConfig.__init__()" "self"))
    else ofTable home ((given <|> named).getD .null) (changes.erase "app_dir")

/-- The usual settings with the named values of an object. -/
def ofNamed (home : String) (directory : Option Value) (changes : Value) :
    Except SettingsError Settings :=
  (changes.named "config.GeneratorConfig()").mapError .misuse >>= ofValues home directory

/-- Whether a value is less than a whole number. -/
def less (v : Value) (bound : Int) : Except SettingsError Bool :=
  (v.less (.int bound)).mapError .misuse

/-- The settings that are counts. -/
def countNames : List String := ["valid_count", "invalid_count", "extreme_per_kind"]

/-- Fails if a named count is missing or negative. -/
def validateCount (s : Settings) (name : String) : Except SettingsError Unit := do
  let v ← entry name (← s.values)
  if ← less v 0 then throw (.config (.negative name v))

/-- The check of settings: the depth first, then the counts, then the identifier. -/
def validate (s : Settings) : Except SettingsError Unit := do
  let depth ← s.lookup "max_depth"
  if ← less depth 1 then throw (.config (.tooShallow depth))
  countNames.forM s.validateCount
  let identifier ← s.lookup "identifier"
  if !identifier.truthy then throw (.config .noIdentifier)

/-- The plan of a run with these settings. -/
def plan (s : Settings) : Plan where
  maxDepth := s.value "max_depth"
  validCount := s.value "valid_count"
  invalidCount := s.value "invalid_count"
  extremePerKind := s.value "extreme_per_kind"
  identifier := s.value "identifier"

/-- The source of a run with these settings, seeded by another number if no seed is set. -/
def source (s : Settings) (otherwise : Int) : Except Misuse Random.Twister :=
  Random.Twister.ofValue otherwise (s.value "seed")

/-- The values by name as a JSON object. -/
def toJson (s : Settings) : Except SettingsError Value := do
  ((← s.values).entries.map fun e => .object e.named).mapError .misuse

end Settings

end GrammarSuite
