import GrammarSuite.Table
import GrammarSuite.Instant
import GrammarSuite.Json.Entries
import GrammarSuite.Token

/-!
# Test cases

A test case is a string with an identifier, one of three categories, a description and metadata.
Where a case is read, its parts and the entries of its metadata may be any JSON values; an entry
that is added to a case is a number, a text, a truth value or a table of numbers.

## Main definitions

* `Category`, `TestCase`: labelled strings
* `isEntry`: the values that may be added as entries
* `TestCase.annotate`, `TestCase.annotateChecked`: a case with one more entry
* `stringMetadata`: the entries that every case has
* `countByCategory`: how many cases each category has
-/

namespace GrammarSuite

/-- The category of a case. -/
inductive Category where
  | valid
  | invalid
  | extreme
  deriving DecidableEq, Repr

namespace Category

/-- All categories, in the order in which they are reported. -/
def all : List Category := [valid, invalid, extreme]

/-- The name of a category, which starts the identifiers of its cases. -/
def name : Category → String
  | valid => "VALID"
  | invalid => "INVALID"
  | extreme => "EXTREME"

/-- The name of a category in the headings of a report. -/
def label : Category → String
  | valid => "Valid"
  | invalid => "Invalid"
  | extreme => "Extreme"

/-- The category of a name. -/
def ofName? (n : String) : Option Category := all.find? (·.name = n)

/-- The category that a value names. -/
def ofValue : Json.Value → Except Json.Misuse Category := Json.Value.member "Category" ofName?

end Category

/-- Whether a value is a table of whole numbers. -/
def isCounts (fields : List (String × Json.Value)) : Bool :=
  fields.all fun (_, v) => match v with
    | .int _ => true
    | _ => false

/-- Whether a value may become an entry of metadata: a whole number, a truth value, a text, or a
table of whole numbers. -/
def isEntry : Json.Value → Bool
  | .int _ | .bool _ | .text _ => true
  | .object fields => isCounts fields
  | _ => false

/-- A labelled string. -/
structure TestCase where
  id : Json.Value
  content : Json.Value
  category : Category
  description : Json.Value
  /-- The entries of a case, in the order in which they were made. -/
  metadata : Json.Entries := []
  created : Instant

namespace TestCase

/-- A case with one more entry, or another value for an entry it has. -/
def annotate (c : TestCase) (key value : Json.Value) : TestCase :=
  { c with metadata := c.metadata.write key value }

/-- A case with the entries of a list. -/
def annotateAll (c : TestCase) (entries : List (String × Json.Value)) : TestCase :=
  entries.foldl (fun c (k, v) => c.annotate (.text k) v) c

/-- The check of a value that is to become an entry. -/
def checkEntry (key : String) (value : Json.Value) : Except Json.Misuse Unit :=
  if isEntry value then .ok () else .error (.notEntry key value.typeName)

/-- A case with one more entry, whose value is checked before its key. -/
def annotateChecked (c : TestCase) (key value : Json.Value) : Except Json.Misuse TestCase := do
  checkEntry key.display value
  key.checkKey
  pure (c.annotate key value)

/-- A case as JSON. -/
def toJson (c : TestCase) : Json.Value := .object [
  ("id", c.id),
  ("content", c.content),
  ("category", .text c.category.name),
  ("description", c.description),
  ("metadata", .object c.metadata.named),
  ("created_at", .text c.created.iso)]

/-- A case as it is shown. -/
def text (c : TestCase) : String :=
  "[" ++ c.id.display ++ "] " ++ c.category.name ++ ": " ++ c.content.display

end TestCase

/-- The spelling of an identifier, to compare tokens with. A value that is no text is no spelling,
which matters only where there is a token. -/
def identifierSpelling (identifier : Json.Value) (tokens : List String) :
    Except Json.Misuse String :=
  match identifier with
  | .text spelling => .ok spelling
  | v => if tokens.isEmpty then .ok "" else .error (.notSpelling v.typeName)

/-- The entries that every case has: what can be counted on the tokens of its content. -/
def stringMetadata (identifier content : String) : List (String × Json.Value) :=
  let tokens := Token.tokenize content
  let opened := tokens.count Token.openParen
  let closed := tokens.count Token.closeParen
  let operators := Token.histogram tokens
  [("length", .int (Text.size content)),
    ("token_count", .int tokens.length),
    ("open_parens", .int opened),
    ("close_parens", .int closed),
    ("parens_balanced", .bool (opened = closed)),
    ("operators", .object (operators.map fun (op, n) => (op, .int n))),
    ("total_operators", .int (operators.foldr (fun (_, n) total => n + total) 0 : Nat)),
    ("identifier_count", .int (Token.countIdentifiers identifier tokens))]

/-- How many cases each category has. -/
def countByCategory (cases : List TestCase) : List (Category × Nat) :=
  Category.all.map fun category => (category, cases.countP (·.category = category))

end GrammarSuite
