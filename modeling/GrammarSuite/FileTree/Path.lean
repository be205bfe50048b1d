/-!
# Paths

The text of a path: parts between slashes, the tilde for the home directory, and the extension of
a file name.

## Main definitions

* `expandHome`: a path with its leading tilde replaced
* `join`: a path below another one
* `parent`, `fileName`: the two sides of the last slash
* `stem`: a file name without its extension
* `longestName`, `longestPath`: how long names and paths may be
-/

namespace GrammarSuite.Path

/-- A text without the slashes it ends with. -/
def dropSlashes (s : List Char) : List Char := (s.reverse.dropWhile (· == '/')).reverse

/-- A path whose first part is the tilde, with the home directory in its place. -/
def expandHome (home path : String) : String :=
  match path.toList with
  | ['~'] => if home.toList.all (· == '/') then "/" else String.ofList (dropSlashes home.toList)
  | '~' :: '/' :: rest => String.ofList (dropSlashes home.toList ++ '/' :: rest)
  | _ => path

/-- A path below another one; an absolute path stands alone. -/
def join (base path : String) : String :=
  if path.toList.head? = some '/' then path
  else if base.isEmpty ∨ base.toList.getLast? = some '/' then base ++ path
  else base ++ "/" ++ path

/-- The part of a path behind its last slash. -/
def fileName (path : String) : String :=
  String.ofList (path.toList.reverse.takeWhile (· != '/')).reverse

/-- The part of a path up to its last slash, which stays only at the root. -/
def parent (path : String) : String :=
  let head := (path.toList.reverse.dropWhile (· != '/')).reverse
  String.ofList (if head.all (· == '/') then head else dropSlashes head)

/-- A file name without its extension: the part before the last dot, unless only dots stand before
that dot. -/
def stem (name : String) : String :=
  let before := (name.toList.reverse.dropWhile (· != '.')).drop 1 |>.reverse
  if before.all (· == '.') then name else String.ofList before

/-- The greatest length of a part of a path in bytes. -/
def longestName : Nat := 255

/-- The greatest length of a path in bytes. -/
def longestPath : Nat := 4095

end GrammarSuite.Path
