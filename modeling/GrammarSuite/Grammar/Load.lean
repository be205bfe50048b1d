import GrammarSuite.Grammar.Reader
import GrammarSuite.FileTree.Basic

/-!
# Grammars in files

A grammar read from a file of a file tree, named after the file.

## Main definitions

* `LoadError`: why there is no grammar in a file
* `Grammar.load`: the grammar of a file
-/

namespace GrammarSuite

/-- Why there is no grammar in a file. -/
inductive LoadError
  | missing (path : String)
  | file (e : FileError)
  | grammar (e : GrammarError)

/-- The wording of a failure. -/
def LoadError.message : LoadError → String
  | missing path => "Grammar file not found: " ++ path
  | file e => e.message
  | grammar e => e.message

/-- The grammar of a file. A leading tilde stands for the home directory. -/
def Grammar.load (home : String) (t : FileTree) (path : String) : Except LoadError Grammar :=
  let path := Path.expandHome home path
  if !t.has path then .error (.missing path)
  else
    match t.readText path with
    | .error e => .error (.file e)
    | .ok text => (ofText text (.text (Path.stem (Path.fileName path)))).mapError .grammar

end GrammarSuite
