import GrammarSuite.CommandLine.Files
import GrammarSuite.Display.Plain
import Std.Time

/-!
# The program

The command-line program on a real terminal: it reads the files that a run may use, runs the program
on their values, and then prints its output and writes the changed files. A run is made twice, the
first time only to see how long it takes. Outside the program a text is its characters.
-/

namespace GrammarSuite.CommandLine

/-- What is found at a path. -/
def look (path : String) : IO (Option Node) := do
  let file := System.mkFilePath [Text.characters path]
  if ← file.isDir then pure (some .directory)
  else if ← file.pathExists then pure (some (.file (Text.ofCharacters (← IO.FS.readFile file))))
  else pure none

/-- A tree with what is found at a path and above it. -/
def gather (t : FileTree) (path : String) : IO FileTree :=
  (FileTree.starts path).foldlM (fun t start => do pure (t.observe start (← look start))) t

/-- Makes a change. -/
def apply : FileChange → IO Unit
  | .directory path => IO.FS.createDirAll (System.mkFilePath [Text.characters path])
  | .write path text =>
    IO.FS.writeFile (System.mkFilePath [Text.characters path]) (Text.characters text)
  | .delete path => IO.FS.removeFile (System.mkFilePath [Text.characters path])

/-- The present moment. -/
def present : IO Instant := do
  let n ← Std.Time.PlainDateTime.now
  pure {
    year := n.date.year.toInt.toNat
    month := n.date.month.val.toNat
    day := n.date.day.val.toNat
    hour := n.time.hour.val.toNat
    minute := n.time.minute.val.toNat
    second := n.time.second.val.toNat
    microsecond := n.time.nanosecond.val.toNat / 1000 }

/-- The surroundings of the program. -/
def surroundings : IO Environment := do
  let now ← present
  let bytes ← IO.getRandomBytes 8
  pure {
    home := Text.ofCharacters ((← IO.getEnv "HOME").getD "/")
    now := .ok now
    logged := now
    seed := (bytes.toList.foldl (fun n b => n * 256 + b.toNat) 0 : Nat) }

/-- The files of a run from its arguments. -/
def filesOf (env : Environment) (arguments : List String) : IO FileTree := do
  match Options.read arguments with
  | .error _ => pure {}
  | .ok o => do
    let path := Program.settingsPath env o
    let t ← gather {} path
    let values := match Settings.readValues t path with
      | .ok values => values
      | .error _ => []
    match Settings.ofValues env.home (some .null) values with
    | .error _ => pure t
    | .ok s => (Program.paths env o s).foldlM gather t

/-- A run on files with a clock. -/
def attempt (env : Environment) (arguments : List String) (tree : FileTree) (clock : Clock) :
    IO (Ending × Terminal) :=
  IO.lazyPure fun _ => Program.run env arguments { outlet := { tree }, clock }

/-- The seconds on the clock. -/
def seconds : IO Float := do pure (Decimal.nearest false (← IO.monoNanosNow) 1000000000)

end GrammarSuite.CommandLine

open GrammarSuite GrammarSuite.CommandLine in
/-- Runs the program. -/
def main (arguments : List String) : IO UInt32 := do
  let env ← surroundings
  let arguments := arguments.map Text.ofCharacters
  let tree ← filesOf env arguments
  let start ← seconds
  let _ ← attempt env arguments tree (Clock.ofReadings [0.0])
  let stop ← seconds
  let (ending, t) ← attempt env arguments tree (Clock.ofReadings [start, stop])
  t.shown.forM fun
    | .line text => IO.println (Text.characters text)
    | .display d => d.lines.forM fun line => IO.println (Text.characters line)
  IO.eprint (Text.characters t.outlet.console)
  (tree.changes t.outlet.tree).forM apply
  match ending with
  | .crashed e => do
    IO.eprintln (Text.characters e.message)
    pure 1
  | e => pure (UInt32.ofNat (e.status?.getD 0))
