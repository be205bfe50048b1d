import GrammarSuite.Log.Record
import GrammarSuite.Instant
import GrammarSuite.FileTree.Basic
import GrammarSuite.Json.Order

/-!
# Where records go

A log passes its records to handlers: the console, where the level may be coloured, and files. A
record is passed on if its level reaches that of the log, and shown by a handler if it reaches that
of the handler. Where a log was set up without handlers, and on channels that do not belong to the
log, records from warnings up go to the console as bare messages. A channel belongs to the log by
its name and by the channels that were named before. A log that was never set up shows nothing, and
neither does a record whose severity is not positive.

A file of a handler is bounded: before a record that would make it too long it is put aside as
`.1`, older ones move on to `.2` and so on, and the oldest is dropped.

## Main definitions

* `Level.ofJson`: the level of a setting
* `Channel.ofValue`: the channel that a value names
* `Target`, `Handler`, `Logger`: a log and its handlers
* `Outlet`: the console and the files
* `Logger.emit`, `Logger.emitAll`: writes records
* `Assembly.log`: a message on a channel
* `Setup`, `Setup.assemble`: a log set up anew
-/

namespace GrammarSuite.Log

open Json (Misuse Value)

/-- The level that a setting names; a setting that counts as unset, or names no level, stands for
the level of information. -/
def Level.ofJson (v : Value) : Level := if v.truthy then ofName v.display else info

/-- The code of the colour of a level on the console. -/
def Level.colour? (l : Level) : Option String :=
  match l.severity with
  | 10 => some "36"
  | 20 => some "32"
  | 30 => some "33"
  | 40 => some "31"
  | 50 => some "1;31"
  | _ => none

/-- A control sequence of the console. -/
def control (code : String) : String := "\x1b[" ++ code ++ "m"

/-- The control sequence that ends a colour. -/
def plainly : String := control "0"

namespace Record

/-- A record as a line. -/
def line (r : Record) : String := "[" ++ r.level.name ++ "] " ++ r.channel ++ " - " ++ r.message

/-- A record as a line whose level is coloured. It ends with the end of a colour. -/
def colouredLine (r : Record) : String :=
  let line := ((r.level.colour?.map control).getD "") ++ "[" ++ r.level.name ++ "]" ++ plainly ++
    " " ++ r.channel ++ " - " ++ r.message
  if plainly.toList.isSuffixOf line.toList then line else line ++ plainly

/-- A record as a line of a file. -/
def datedLine (now : Instant) (r : Record) : String := now.shown ++ " " ++ r.line

end Record

/-- Where a handler shows records. -/
inductive Target where
  | console (coloured : Bool)
  /-- A file, with the length from which it is put aside and the number of files kept aside. -/
  | file (path : String) (bound : Int) (backups : Int)
  deriving DecidableEq, Repr

/-- A target for the records from a level up. -/
structure Handler where
  target : Target
  level : Level
  deriving DecidableEq, Repr

/-- A log: its level, once it was set up, its handlers, and the channels that were named. -/
structure Logger where
  level : Level := .unset
  handlers : Option (List Handler) := none
  channels : List String := []
  deriving DecidableEq, Repr

/-- The console and the files that records are written to. -/
structure Outlet where
  console : String := ""
  tree : FileTree := {}

namespace Outlet

/-- Writes a line to the console. -/
def print (o : Outlet) (line : String) : Outlet := { o with console := o.console ++ line ++ "\n" }

/-- The path of a file put aside. -/
def asidePath (path : String) (number : Nat) : String := path ++ "." ++ toString number

/-- Moves a file or a directory, in place of another file. -/
def move (t : FileTree) (source target : String) : FileTree :=
  match t.locate source, t.locate target with
  | .ok s, .ok p => if (t.node? s).isNone ∨ t.node? p = some .directory then t else t.move s p
  | _, _ => t

/-- Moves the files put aside on by one, from the last but one down to the first. -/
def moveAside (t : FileTree) (path : String) : Nat → FileTree
  | 0 => t
  | n + 1 => moveAside (move t (asidePath path (n + 1)) (asidePath path (n + 2))) path n

/-- Puts a file aside and starts a new one. -/
def rotate (t : FileTree) (path : String) (backups : Nat) : FileTree :=
  let t := move (moveAside t path (backups - 1)) path (asidePath path 1)
  match t.appendText path "" with
  | .ok t => t
  | .error _ => t

/-- The length of a file in bytes. -/
def size (t : FileTree) (path : String) : Nat :=
  match t.at? path with
  | some (.file text) => Text.byteSize text
  | _ => 0

/-- Writes a line to a bounded file. -/
def write (o : Outlet) (path : String) (bound backups : Int) (line : String) : Outlet :=
  -- The length of the line is in characters, and that of the file in bytes.
  let full := 0 < bound ∧ 0 < backups ∧ bound ≤ size o.tree path + (Text.size line + 1)
  let tree := if full then rotate o.tree path backups.toNat else o.tree
  match tree.appendText path (line ++ "\n") with
  | .ok tree => { o with tree }
  | .error _ => { o with tree }

end Outlet

namespace Handler

/-- Shows a record, if it reaches the level. -/
def pass (h : Handler) (now : Instant) (r : Record) (o : Outlet) : Outlet :=
  if r.level.severity < h.level.severity then o
  else
    match h.target with
    | .console true => o.print r.colouredLine
    | .console false => o.print r.line
    | .file path bound backups => o.write path bound backups (r.datedLine now)

end Handler

namespace Logger

/-- Whether a channel belongs to the log. -/
def owns (l : Logger) (channel : String) : Bool := Channel.isWithin l.channels Channel.main channel

/-- The level from which records are passed on. -/
def threshold (l : Logger) : Level := if l.level.severity = 0 then .warning else l.level

/-- Shows a record without handlers. -/
def emitBare (r : Record) (o : Outlet) : Outlet :=
  if r.level.severity < Level.warning.severity then o else o.print r.message

/-- Shows a record on one of the channels of the log. -/
def emitOwn (l : Logger) (now : Instant) (r : Record) (o : Outlet) : Outlet :=
  if r.level.severity < l.threshold.severity then o
  else
    match l.handlers with
    | none => o
    -- A log that was set up without handlers shows its warnings as others do.
    | some [] => emitBare r o
    | some handlers => handlers.foldl (fun o h => h.pass now r o) o

/-- Shows a record. -/
def emit (l : Logger) (now : Instant) (r : Record) (o : Outlet) : Outlet :=
  if r.level.severity ≤ 0 then o
  else if l.owns r.channel then l.emitOwn now r o
  else emitBare r o

/-- A log whose channels include a name. -/
def naming (l : Logger) (channel : String) : Logger :=
  { l with channels := channel :: l.channels }

/-- Passes records to all handlers, one after the other. -/
def emitAll (l : Logger) (now : Instant) (records : Journal) (o : Outlet) : Outlet :=
  records.foldl (fun o r => l.emit now r o) o

end Logger

/-- The usual file of a log. -/
def usualPath : String := "~/.cfgcases/cfgcases.log"

/-- How a log is set up. The values are checked where they are used. -/
structure Setup where
  level : Value := .int Level.info.severity
  toFile : Value := .bool true
  toConsole : Value := .bool false
  path : Value := .text usualPath
  /-- The length from which a file is put aside. -/
  bound : Value := .int (5 * 1024 * 1024)
  /-- The number of files kept aside. -/
  backups : Value := .int 5
  coloured : Value := .bool true

/-- Why a log is not set up. -/
inductive SetupError
  | file (e : FileError)
  | misuse (m : Misuse)

/-- The wording of a failure. -/
def SetupError.message : SetupError → String
  | file e => e.message
  | misuse m => m.message

/-- The level of a value: a whole number, or the name of a level. -/
def Level.ofValue : Value → Except Misuse Level
  | .text name =>
    match named.lookup name with
    | some l => .ok l
    | none => .error (.unknownLevel name)
  | v =>
    match v.whole with
    | .ok n => .ok { severity := n, isTruth := v.isTruth }
    | .error _ => .error (.notLevel v.display)

/-- The level of a whole number. -/
def Level.ofNumber (v : Value) : Except Misuse Level :=
  match v.whole with
  | .ok n => .ok { severity := n, isTruth := v.isTruth }
  | .error _ => .error .notSeverity

/-- The channel that a value names. A value that counts as unset names the root. -/
def Channel.ofValue : Value → Except Misuse String
  | .text name => .ok (if name = "" then root else name)
  | v => if v.truthy then .error .notChannel else .ok root

/-- The least whole number that is not below a number. A number beyond all others counts as zero. -/
def Setup.ceiling : Json.Number → Int
  | .whole n => n
  | .double x =>
    match Decimal.fraction? x with
    | some (numerator, denominator) => -((-numerator) / denominator)
    | none => 0

/-- A log, with what it writes to. -/
structure Assembly where
  logger : Logger := {}
  outlet : Outlet := {}

namespace Assembly

/-- A message on the channel that a value names, and the record of it. The channel is there from
then on, also where the other value is no severity. -/
def log (now : Instant) (channel severity message : Value) : Action Assembly Misuse Record := do
  let channel ← MonadExcept.ofExcept (Channel.ofValue channel)
  modify fun a => { a with logger := a.logger.naming channel }
  let level ← MonadExcept.ofExcept (Level.ofNumber severity)
  let r : Record := { level, channel, message := message.display }
  modify fun a => { a with outlet := a.logger.emit now r a.outlet }
  pure r

end Assembly

namespace Setup

/-- A set-up with named values. -/
def withField (s : Setup) (name : String) (v : Value) : Except Misuse Setup :=
  match name with
  | "log_level" => .ok { s with level := v }
  | "log_to_file" => .ok { s with toFile := v }
  | "log_to_console" => .ok { s with toConsole := v }
  | "log_file" => .ok { s with path := v }
  | "max_bytes" => .ok { s with bound := v }
  | "backup_count" => .ok { s with backups := v }
  | "use_color" => .ok { s with coloured := v }
  | _ => .error (.unknownArgument "setup_logger()" name)

/-- The usual set-up with named values. -/
def ofFields (fields : List (String × Value)) : Except Misuse Setup :=
  fields.foldlM (fun s (name, v) => s.withField name v) {}

/-- A log with one more handler. -/
def addHandler (target : Target) (level : Level) : Action Assembly SetupError Unit :=
  modify fun a => { a with logger := { a.logger with
    handlers := some ((a.logger.handlers.getD []) ++ [⟨target, level⟩]) } }

/-- An action on the files. -/
def onFiles (x : Action FileTree FileError Unit) : Action Assembly SetupError Unit :=
  x.within (fun a => a.outlet.tree)
    (fun tree a => { a with outlet := { a.outlet with tree } }) .file

/-- Fails if a value is misused. -/
def checked {α : Type} : Except Misuse α → Action Assembly SetupError α
  | .ok a => pure a
  | .error m => throw (.misuse m)

/-- The path of the file, with the home directory in place of a leading tilde. -/
def file (s : Setup) (home : String) : Except Misuse String :=
  s.path.pathText.map (Path.expandHome home)

/-- The bound of a file as a whole number; anything below one stands for no bound. -/
def boundOf (v : Value) : Except Misuse Int := do
  if ← v.positive then
    match v.number? with
    | some n => pure (ceiling n)
    | none => pure 0
  else pure 0

/-- Makes the file of a log, with the directories above it, and adds its handler. -/
def addFile (s : Setup) (home : String) (level : Level) : Action Assembly SetupError Unit := do
  let path ← checked (s.file home)
  let above := Path.parent path
  if above ≠ "" then onFiles (FileTree.makeDirectories above)
  let bound ← checked (boundOf s.bound)
  onFiles (FileTree.change (·.appendText path ""))
  addHandler (.file path bound s.backups.toInt) level

/-- The record of a set-up. -/
def record (s : Setup) : Record where
  level := .debug
  channel := Channel.main
  message := "cfgcases logger configured. color: " ++ s.coloured.display ++
    ", log_to_file: " ++ s.toFile.display

/-- Sets a log up in place of another one. A level that is none leaves the log as it was; any other
failure leaves it with the handlers made so far. -/
def assemble (s : Setup) (home : String) (now : Instant) : Action Assembly SetupError Unit := do
  let level ← checked (Level.ofValue s.level)
  modify fun a => { a with logger := { a.logger with level, handlers := some [] } }
  if s.toConsole.truthy then addHandler (.console s.coloured.truthy) level
  if s.toFile.truthy then s.addFile home level
  modify fun a => { a with outlet := a.logger.emit now s.record a.outlet }

end Setup

end GrammarSuite.Log
