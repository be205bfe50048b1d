import GrammarSuite.Action
import GrammarSuite.Table
import GrammarSuite.FileTree.Path
import GrammarSuite.Text.Blank
import GrammarSuite.Text.Encoding
import GrammarSuite.Text.Quoted

/-!
# File trees

The files that the library reads and writes, as a value: a table from places to files with their
texts and to directories. A place is the list of the parts of a path, from the working directory,
or from the root if it starts with a slash.

A path is followed part by part. Every part but the last must be a directory, and `..` leads from a
directory to the one that holds it. The operations fail with the causes of an operating system, or
because a path or a text has no form in bytes.

## Main definitions

* `FileTree`, `FileTree.node?`: a tree, and what is at a place
* `FileTree.locate`: the place of a path
* `FileTree.readText`, `FileTree.writeText`, `FileTree.appendText`: the text of a file
* `FileTree.change`: a change of a tree as an action
* `FileTree.makeDirectories`: a directory with all that hold it
-/

namespace GrammarSuite

/-- What is at a place. -/
inductive Node where
  | file (text : String)
  | directory
  deriving DecidableEq, Repr

/-- A place in a file tree. -/
abbrev Place := List String

/-- Files and directories by their places. -/
structure FileTree where
  nodes : Table Place Node := []
  deriving Repr

/-- Why an operation on files fails. -/
inductive FileProblem where
  | missing
  | taken
  | notDirectory
  | isDirectory
  /-- A path, or one of its parts, is too long. -/
  | tooLong
  /-- A path holds the null character. -/
  | holdsNull
  /-- A path or a text holds halves of UTF-16 pairs. -/
  | unencodable (f : Text.EncodingFault)
  deriving DecidableEq, Repr

/-- A failure of an operation on the file at a path. -/
structure FileError where
  problem : FileProblem
  path : String
  deriving DecidableEq, Repr

namespace FileProblem

/-- The number of a problem among those of the operating system. -/
def number? : FileProblem → Option Nat
  | missing => some 2
  | taken => some 17
  | notDirectory => some 20
  | isDirectory => some 21
  | tooLong => some 36
  | holdsNull | unencodable _ => none

/-- Whether a problem is one of the operating system. -/
def isOfSystem (p : FileProblem) : Bool := p.number?.isSome

/-- The wording of a problem. -/
def message : FileProblem → String
  | missing => "No such file or directory"
  | taken => "File exists"
  | notDirectory => "Not a directory"
  | isDirectory => "Is a directory"
  | tooLong => "File name too long"
  | holdsNull => "embedded null byte"
  | unencodable f => f.message

/-- Why a path leads nowhere, whatever there is. -/
def ofPath? (path : String) : Option FileProblem :=
  match Text.nameFault? path with
  | some f => some (.unencodable f)
  | none =>
    if '\x00' ∈ path.toList then some .holdsNull
    else if Path.longestPath < Text.byteSize path then some .tooLong
    else none

end FileProblem

/-- The wording of a failure. -/
def FileError.message (e : FileError) : String :=
  match e.problem.number? with
  | some n =>
    "[Errno " ++ toString n ++ "] " ++ e.problem.message ++ ": " ++ Text.quoted e.path
  | none => e.problem.message

namespace FileTree

/-- The root, the working directory and those above it are there in every tree. -/
def isBase (p : Place) : Bool := p.all (· == "..") || p == ["/"]

/-- What is at a place. -/
def node? (t : FileTree) (p : Place) : Option Node :=
  if isBase p then some .directory else t.nodes.get? p

/-- A tree with a node at a place. -/
def put (t : FileTree) (p : Place) (n : Node) : FileTree := { nodes := t.nodes.insert p n }

/-- A tree with nothing at a place. -/
def remove (t : FileTree) (p : Place) : FileTree := { nodes := t.nodes.erase p }

/-- A tree in which what is at a place, and below it, is at another place, with nothing left there
of what it was. -/
def move (t : FileTree) (source target : Place) : FileTree where
  nodes := (t.remove target).nodes.map fun (p, n) =>
    (if source.isPrefixOf p then target ++ p.drop source.length else p, n)

@[simp] theorem node?_put_self {t : FileTree} {p : Place} {n : Node} (h : isBase p = false) :
    (t.put p n).node? p = some n := by
  simp [node?, put, h]

theorem node?_put_of_ne {t : FileTree} {p q : Place} {n : Node} (h : q ≠ p) :
    (t.put p n).node? q = t.node? q := by
  simp [node?, put, Table.get?_insert_of_ne _ _ h]

/-- Follows the parts of a path from a place. -/
def follow (t : FileTree) (place : Place) : List String → Except FileProblem Place
  | [] => .ok place
  | part :: rest =>
    match t.node? place with
    | none => .error .missing
    | some (.file _) => .error .notDirectory
    | some .directory =>
      if part = "" ∨ part = "." then t.follow place rest
      else if part = ".." then
        t.follow (if place = ["/"] then place
          else if place = [] ∨ place.getLast? = some ".." then place ++ [".."]
          else place.dropLast) rest
      else if Path.longestName < Text.byteSize part then .error .tooLong
      else t.follow (place ++ [part]) rest

/-- The place of a path. The last part need not be there. -/
def locate (t : FileTree) (path : String) : Except FileProblem Place :=
  match FileProblem.ofPath? path, path.toList with
  | some problem, _ => .error problem
  | none, [] => .error .missing
  | none, s@(c :: _) =>
    t.follow (if c = '/' then ["/"] else []) ((s.splitOn '/').map String.ofList)

/-- What is at the end of a path. -/
def at? (t : FileTree) (path : String) : Option Node :=
  match t.locate path with
  | .ok p => t.node? p
  | .error _ => none

/-- Whether there is anything at the end of a path. -/
def has (t : FileTree) (path : String) : Bool := (t.at? path).isSome

/-- Whether there is a directory at the end of a path. -/
def hasDirectory (t : FileTree) (path : String) : Bool := t.at? path == some .directory

/-- The place of a path at which a file may stand. -/
def locateFile (t : FileTree) (path : String) : Except FileError Place :=
  match t.locate path with
  | .error problem => .error ⟨problem, path⟩
  | .ok p => if t.node? p = some .directory then .error ⟨.isDirectory, path⟩ else .ok p

/-- The text of a file, with all line ends as line feeds. -/
def readText (t : FileTree) (path : String) : Except FileError String := do
  let p ← t.locateFile path
  match t.node? p with
  | some (.file text) => .ok (String.ofList (Text.normalizeNewlines text.toList))
  | _ => .error ⟨.missing, path⟩

/-- The place at which a text may be written. -/
def locateText (t : FileTree) (path text : String) : Except FileError Place := do
  let p ← t.locateFile path
  match Text.encodingFault? text with
  | some f => .error ⟨.unencodable f, path⟩
  | none => .ok p

/-- Writes a file anew. -/
def writeText (t : FileTree) (path text : String) : Except FileError FileTree := do
  let p ← t.locateText path text
  .ok (t.put p (.file text))

/-- Writes at the end of a file, which is made if it is not there. -/
def appendText (t : FileTree) (path text : String) : Except FileError FileTree := do
  let p ← t.locateText path text
  match t.node? p with
  | some (.file before) => .ok (t.put p (.file (before ++ text)))
  | _ => .ok (t.put p (.file text))

/-- A change of a tree as an action, which leaves the tree as it is if it fails. -/
def change (f : FileTree → Except FileError FileTree) : Action FileTree FileError Unit :=
  Action.ofFunction fun t =>
    match f t with
    | .ok t => (.ok (), t)
    | .error e => (.error e, t)

/-- Makes a directory in one that is there. -/
def makeDirectory (t : FileTree) (path : String) : Except FileError FileTree :=
  let bare := Path.dropSlashes path.toList
  match t.locate (if bare.isEmpty then path else String.ofList bare) with
  | .error problem => .error ⟨problem, path⟩
  | .ok p => if (t.node? p).isSome then .error ⟨.taken, path⟩ else .ok (t.put p .directory)

/-- The directory that holds a path, and its last part; a slash at the end does not count. -/
def splitLast (path : String) : String × String :=
  if Path.fileName path = "" then
    (Path.parent (Path.parent path), Path.fileName (Path.parent path))
  else (Path.parent path, Path.fileName path)

/-- Makes a directory in one that is there; one that is there already is left as it is. -/
def ensureDirectory (path : String) : Action FileTree FileError Unit := Action.ofFunction fun t =>
  match t.makeDirectory path with
  | .ok t => (.ok (), t)
  | .error e => if t.hasDirectory path then (.ok (), t) else (.error e, t)

/-- An action that may find its place taken. -/
def orTaken (x : Action FileTree FileError Unit) : Action FileTree FileError Unit := do
  match ← x.outcome with
  | .ok () => pure ()
  | .error e => if e.problem = .taken then pure () else throw e

/-- Makes a directory and those above it, as far as they are missing, in at most as many rounds as
the path has characters. -/
def makeAll : Nat → String → Action FileTree FileError Unit
  | 0, path => ensureDirectory path
  | rounds + 1, path => do
    let t ← get
    let (above, last) := splitLast path
    if above ≠ "" ∧ last ≠ "" ∧ !t.has above then do
      orTaken (makeAll rounds above)
      if last ≠ "." then ensureDirectory path
    else ensureDirectory path

/-- Makes a directory and those above it. A directory that is there is left as it is. If this fails
midway, what has been made stays. -/
def makeDirectories (path : String) : Action FileTree FileError Unit := makeAll path.length path

/-- The path of a place. -/
def placePath : Place → String
  | "/" :: rest => "/" ++ "/".intercalate rest
  | p => "/".intercalate p

/-- The paths of the files with their texts. -/
def files (t : FileTree) : List (String × String) :=
  t.nodes.filterMap fun
    | (p, .file text) => some (placePath p, text)
    | (_, .directory) => none

/-- A tree with a node at a path, and directories above it. -/
def plant (t : FileTree) (path : String) (n : Node) : FileTree :=
  let base : Place := if path.toList.head? = some '/' then ["/"] else []
  let parts := ((path.toList.splitOn '/').map String.ofList).filter fun s => s ≠ "" ∧ s ≠ "."
  let place := base ++ parts
  let above := (List.range' 1 (parts.length - 1)).map fun k => base ++ parts.take k
  let t := above.foldl (fun t p => if (t.node? p).isSome then t else t.put p .directory) t
  if isBase place then t else t.put place n

/-- A tree from paths with texts, or without a text for a directory. -/
def ofFiles (files : List (String × Option String)) : FileTree :=
  files.foldl
    (fun t (path, text) => t.plant path (match text with
      | some s => .file s
      | none => .directory)) {}

end FileTree

end GrammarSuite
