import GrammarSuite.Settings.File

/-!
# Requests to settings

Settings are made, read and changed by requests, one after the other. An answer may be a table that
the settings go on using; such an answer shows what the table holds when it is no longer in use, or
after the last request. So the answers are worked out from the last one to the first.

## Main definitions

* `Request`: what is asked of settings
* `Desk`: the settings at hand, and the files
* `Request.serve`: the outcome of a request
* `Tables`, `Request.before`: the tables of settings as they are in the end
* `Desk.answers`: the answers to requests

## Main statements

* `answers_length`: every request is answered
-/

namespace GrammarSuite.Settings

open Json (Misuse Value)

/-- What is asked of settings. -/
inductive Request
  /-- New settings with values, in a directory that may be given apart. -/
  | make (directory : Option Value) (changes : Value)
  | load (directory : Value)
  | save
  | read (name otherwise : Value)
  | lookup (name : Value)
  | assign (name v : Value)
  | update (changes : Value)
  | validate

/-- What a request is answered with. -/
inductive Answer
  | value (v : Value)
  /-- The table of values. -/
  | values
  /-- The table of members. -/
  | members
  /-- The values as they are. -/
  | copy
  /-- There are no settings yet. -/
  | nothing

/-- The settings at hand, and the files. -/
structure Desk where
  settings : Option Settings := none
  tree : FileTree := {}

/-- The tables that settings use. -/
structure Tables where
  values : Value := .null
  members : Table String Value := []

/-- The tables of the settings at hand, with what they hold at present. -/
def Desk.tables (d : Desk) : Tables :=
  match d.settings with
  | some s => ⟨s.values.toOption.getD .null, s.members⟩
  | none => {}

namespace Request

/-- Fails if a member took the place of an operation. -/
def checkOperation (s : Settings) (operation : String) : Except SettingsError Unit :=
  match s.members.get? operation with
  | none => .ok ()
  | some v => .error (.misuse (.notOperation v.typeName))

/-- The name that a value is. -/
def nameOf : Value → Except SettingsError String
  | .text name => .ok name
  | v => .error (.misuse (.notMemberName v.typeName))

/-- The answer to a request for the value of a name. -/
def found (s : Settings) (name : String) : Except SettingsError Answer :=
  if name = membersName then .ok .members
  else if name = valuesName then s.values.map fun _ => .values
  else (s.lookup name).map .value

/-- An action on the files. -/
def onFiles {α : Type} (x : Action FileTree SettingsError α) : Action Desk SettingsError α :=
  x.within Desk.tree (fun tree d => { d with tree }) id

/-- Puts settings on the desk, if they could be made. -/
def take (s : Except SettingsError Settings) : Action Desk SettingsError Answer := do
  let s ← MonadExcept.ofExcept s
  modify fun d => { d with settings := some s }
  pure .copy

/-- The outcome of a request. -/
def serve (home : String) (r : Request) : Action Desk SettingsError Answer := do
  match r, (← get).settings with
  | make directory changes, _ => take (ofNamed home directory changes)
  | load directory, _ => do take (.ok (← onFiles (Settings.load home directory)))
  | _, none => pure .nothing
  | save, some s => do
    MonadExcept.ofExcept (checkOperation s "save")
    let path ← onFiles (s.save home)
    pure (.value (.text path))
  | read name otherwise, some s =>
    MonadExcept.ofExcept do
      checkOperation s "get"
      .value <$> s.read name otherwise
  | lookup name, some s => MonadExcept.ofExcept (nameOf name >>= found s)
  | assign name v, some s => take (nameOf name >>= (s.assign · v))
  | update changes, some s => take (checkOperation s "update" *> s.updateNamed changes)
  | validate, some s =>
    MonadExcept.ofExcept do
      checkOperation s "validate"
      s.validate
      pure .copy

/-- The tables in use before a request that succeeded, by what they hold in the end: those that it
put out of use keep what they held. -/
def before (r : Request) (present last : Tables) : Tables :=
  match r with
  | make _ _ | load _ => present
  | assign (.text name) _ =>
    if name = membersName then present
    else if name = valuesName then { last with values := present.values }
    else last
  | _ => last

end Request

/-- What is shown for an answer; nothing if there are no settings yet. -/
def Answer.shown (last : Tables) (d : Desk) : Answer → Except SettingsError (Option Value)
  | value v => .ok (some v)
  | values => .ok (some last.values)
  | members => .ok (some (.object last.members))
  | copy =>
    match d.settings with
    | some s => do
      Request.checkOperation s "to_dict"
      some <$> s.toJson
    | none => .ok none
  | nothing => .ok none

/-- The answers to requests, the tables of the settings by what they hold in the end, and the files
behind the last request. -/
def Desk.answers (home : String) :
    List Request → Desk → List (Except SettingsError (Option Value)) × Tables × FileTree
  | [], d => ([], d.tables, d.tree)
  | r :: rest, d =>
    let (result, later) := (r.serve home).runOn d
    let (answers, last, tree) := later.answers home rest
    let tables := match result with
      | .ok _ => r.before d.tables last
      | .error _ => last
    ((result >>= Answer.shown last later) :: answers, tables, tree)

/-- Every request is answered. -/
theorem answers_length (home : String) (requests : List Request) (d : Desk) :
    (d.answers home requests).1.length = requests.length := by
  induction requests generalizing d with
  | nil => rfl
  | cons r rest ih => simp [Desk.answers, ih]

end GrammarSuite.Settings
