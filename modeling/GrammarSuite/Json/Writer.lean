import GrammarSuite.Json.Value

/-!
# Written JSON

The text of a JSON value, on one line or indented by two blanks a level. A writer escapes the
quote, the backslash and the controls, and, if asked to stay in ASCII, every other character by
its UTF-16 units; half of a pair is one unit.

## Main definitions

* `escaped`: a text as it stands between quotes
* `pretty`: the indented text of a value
* `compact`: the text of a value on one line
-/

namespace GrammarSuite.Json

/-- One UTF-16 unit as an escape. -/
def unitEscape (n : Nat) : List Char := '\\' :: 'u' :: Text.hex 4 n

/-- A code point by its UTF-16 units. -/
def unitEscapes (n : Nat) : List Char :=
  if n < 0x10000 then unitEscape n
  else unitEscape (0xD800 + (n - 0x10000) / 0x400) ++ unitEscape (0xDC00 + (n - 0x10000) % 0x400)

/-- The letter of the escape of a code point that has a short one. -/
def shortEscape? (n : Nat) : Option Char :=
  if n = 0x22 then some '"'
  else if n = 0x5C then some '\\'
  else if n = 0x0A then some 'n'
  else if n = 0x0D then some 'r'
  else if n = 0x09 then some 't'
  else if n = 0x08 then some 'b'
  else if n = 0x0C then some 'f'
  else none

/-- A code point between quotes. -/
def escapedPoint (ascii : Bool) (n : Nat) : List Char :=
  match shortEscape? n with
  | some letter => ['\\', letter]
  | none =>
    if n < 0x20 || (ascii && 0x7F ≤ n) then unitEscapes n
    else Text.spell n

/-- A text between quotes. -/
def escaped (ascii : Bool) (s : String) : String :=
  String.ofList ('"' :: (Text.points s).flatMap (escapedPoint ascii) ++ ['"'])

/-- A line break and the indentation of a level. -/
def newline (level : Nat) : String := String.ofList ('\n' :: List.replicate (2 * level) ' ')

mutual

/-- The indented text of a value at a level. -/
def pretty (ascii : Bool) (level : Nat) : Value → String
  | .null => "null"
  | .bool b => if b then "true" else "false"
  | .int n => toString n
  | .float x => Decimal.text numberLayout x
  | .text s => escaped ascii s
  | .list [] => "[]"
  | .list (v :: vs) =>
    "[" ++ ",".intercalate (prettyItems ascii (level + 1) (v :: vs)) ++ newline level ++ "]"
  | .object [] => "\x7b\x7d"
  | .object (f :: fs) =>
    "\x7b" ++ ",".intercalate (prettyFields ascii (level + 1) (f :: fs)) ++ newline level ++ "\x7d"

/-- The items of a list, each on its own line. -/
def prettyItems (ascii : Bool) (level : Nat) : List Value → List String
  | [] => []
  | v :: vs => (newline level ++ pretty ascii level v) :: prettyItems ascii level vs

/-- The fields of an object, each on its own line. -/
def prettyFields (ascii : Bool) (level : Nat) : List (String × Value) → List String
  | [] => []
  | (k, v) :: rest =>
    (newline level ++ escaped ascii k ++ ": " ++ pretty ascii level v) ::
      prettyFields ascii level rest

end

section

variable (ascii : Bool) (level : Nat)

theorem pretty_int (n : Int) : pretty ascii level (.int n) = toString n := rfl

theorem pretty_float (x : Float) :
    pretty ascii level (.float x) = Decimal.text numberLayout x := rfl

theorem pretty_text (s : String) : pretty ascii level (.text s) = escaped ascii s := rfl

theorem pretty_list_nil : pretty ascii level (.list []) = "[]" := rfl

theorem pretty_list_cons (v : Value) (vs : List Value) :
    pretty ascii level (.list (v :: vs)) =
      "[" ++ ",".intercalate (prettyItems ascii (level + 1) (v :: vs)) ++ newline level ++ "]" := rfl

theorem pretty_object_nil : pretty ascii level (.object []) = "\x7b\x7d" := rfl

theorem pretty_object_cons (f : String × Value) (fs : List (String × Value)) :
    pretty ascii level (.object (f :: fs)) =
      "\x7b" ++ ",".intercalate (prettyFields ascii (level + 1) (f :: fs)) ++ newline level ++
        "\x7d" := rfl

@[simp] theorem prettyItems_nil : prettyItems ascii level [] = [] := rfl

@[simp] theorem prettyItems_cons (v : Value) (vs : List Value) :
    prettyItems ascii level (v :: vs) =
      (newline level ++ pretty ascii level v) :: prettyItems ascii level vs := rfl

@[simp] theorem prettyFields_nil : prettyFields ascii level [] = [] := rfl

@[simp] theorem prettyFields_cons (k : String) (v : Value) (rest : List (String × Value)) :
    prettyFields ascii level ((k, v) :: rest) =
      (newline level ++ escaped ascii k ++ ": " ++ pretty ascii level v) ::
        prettyFields ascii level rest := rfl

end

mutual

/-- The text of a value on one line, in ASCII. -/
def compact : Value → String
  | .null => "null"
  | .bool b => if b then "true" else "false"
  | .int n => toString n
  | .float x => Decimal.text numberLayout x
  | .text s => escaped true s
  | .list vs => "[" ++ ", ".intercalate (compactItems vs) ++ "]"
  | .object fs => "\x7b" ++ ", ".intercalate (compactFields fs) ++ "\x7d"

/-- The items of a list on one line. -/
def compactItems : List Value → List String
  | [] => []
  | v :: vs => compact v :: compactItems vs

/-- The fields of an object on one line. -/
def compactFields : List (String × Value) → List String
  | [] => []
  | (k, v) :: rest => (escaped true k ++ ": " ++ compact v) :: compactFields rest

end

end GrammarSuite.Json
