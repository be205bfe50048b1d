import GrammarSuite.Instant.Iso
import GrammarSuite.Json.Value

/-!
# Misused values

Values from outside may be of any kind, and most operations take values of some kinds only. What
goes wrong when a value is used in a way that its kind or its size does not allow is said here, by
the names of the kinds.

## Main definitions

* `Misuse`: a use of a value that it does not allow
* `Misuse.message`: its wording
* `Value.member`: what a value names in a set
* `Value.moment`: the moment that a value stands for
* `Value.tokenText`, `Value.lineText`, `Value.pathText`: the text that a value is
* `Value.under`: the value under a name
* `Value.itemsOf?`, `Value.iterated`: the items of a value
* `Value.pair`, `Value.pairs`: a value as a pair, and its items as pairs
-/

namespace GrammarSuite.Json

/-- A use of a value that its kind or its size does not allow. -/
inductive Misuse
  /-- Two values are compared that have no order. -/
  | unordered (relation left right : String)
  /-- Two values are joined by an operation that does not take them. -/
  | unjoined (operation left right : String)
  /-- A value that is no text is to be put behind a text. -/
  | unjoinedText (kind : String)
  /-- A value stands for a whole number and is none. -/
  | notWhole (kind : String)
  /-- A value stands for a path and is none. -/
  | notPath (kind : String)
  /-- A value stands for the spelling of an identifier and is no text. -/
  | notSpelling (kind : String)
  /-- A value stands for the name of a grammar and is no text. -/
  | notName (kind : String)
  /-- A value stands for a table and is none. -/
  | notTable (kind : String)
  /-- A value stands for a table of settings and is none. -/
  | notSettings (kind : String)
  /-- A value is searched for a name and holds nothing. -/
  | notContainer (kind : String)
  /-- A value is read item by item and has no items. -/
  | notItems (kind : String)
  /-- A value is put under a key of a value that cannot be changed. -/
  | unchangeable (kind : String)
  /-- A value is asked for an item and has no items. -/
  | notIndexed (kind : String)
  /-- A table has nothing under a key, which is shown as in a list. -/
  | noKey (shown : String)
  /-- A value stands for the start of a word, whose case is asked for, and is no text. -/
  | notCased (kind : String)
  /-- A value stands for a word of several letters, and is no text. -/
  | notLetters (kind : String)
  /-- A key is no position in a text. -/
  | notTextPosition (kind : String)
  /-- A key is no position in a list. -/
  | notListPosition (kind : String)
  /-- An item stands for a key with its value and has no items. -/
  | notEntryItems (position : Nat)
  /-- An item stands for a key with its value and is no pair. -/
  | notPair (position size : Nat)
  /-- A value is to be taken apart into two and has no items. -/
  | notCouple (kind : String)
  /-- A value is to be taken apart into two and has fewer items. -/
  | tooFewItems (size : Nat)
  /-- A value is to be taken apart into two and has more items. -/
  | tooManyItems
  /-- A value stands for a string of tokens and is no text. -/
  | notTokens (kind : String)
  /-- A value stands for a text of lines and is no text. -/
  | notLines (kind : String)
  /-- A value stands for a text in which something is replaced, and is none. -/
  | notReplaced (kind : String)
  /-- A value stands for a text that is searched, and is none. -/
  | notSearched (kind : String)
  /-- A value is to be shown in a cell of a display, and has no display. -/
  | notShown (kind : String)
  /-- A text names no grammar among those that are known. -/
  | noGrammar (name : String) (known : List String)
  /-- A value names nothing in a set. -/
  | noMember (shown set : String)
  /-- A value is looked up that cannot be a key. -/
  | notKey (kind : String)
  /-- A value is put into the metadata of a case, where its kind has no place. -/
  | notEntry (key kind : String)
  /-- A value stands for the named values of an operation and is no object. -/
  | notNamed (operation kind : String)
  /-- A value has a name that an operation does not know. -/
  | unknownArgument (operation name : String)
  /-- An argument of an operation is given twice, once by its place. -/
  | repeatedArgument (operation name : String)
  /-- An argument of an operation is given twice by its name. -/
  | repeatedName (operation name : String)
  /-- An operation is missing an argument. -/
  | missingArgument (operation name : String)
  /-- An operation has too many arguments. The numbers include one for what it works on. -/
  | tooManyArguments (operation : String) (least most given : Nat)
  /-- A value is written in a format for numbers that does not take its kind. -/
  | badFormat (code kind : String)
  /-- A value is written in a format, and its kind has none. -/
  | noFormat (kind : String)
  /-- A value is no seed of a source of random numbers. -/
  | notSeed
  /-- A text is to be written as bytes and holds halves of UTF-16 pairs. -/
  | unencodable (f : Text.EncodingFault)
  /-- A value is no severity of a record. -/
  | notSeverity
  /-- A value names a channel of a log and is no text. -/
  | notChannel
  /-- A value names a member of settings and is no text. -/
  | notMemberName (kind : String)
  /-- A value stands for the members of settings and is no object. -/
  | notMembers (kind : String)
  /-- A value stands for the kind of settings, which cannot be chosen. -/
  | notClass (kind : String)
  /-- A value took the place of an operation. -/
  | notOperation (kind : String)
  /-- A value is no level of a log. -/
  | notLevel (shown : String)
  /-- A text names no level of a log. -/
  | unknownLevel (name : String)
  /-- A whole number to be written has too many digits. -/
  | longNumber
  /-- A value stands for a double and is none. -/
  | notDouble (kind : String)
  /-- A text stands for a double and is none. -/
  | noDouble (text : String)
  /-- A text stands for no moment. -/
  | noMoment (f : Instant.Fault)
  /-- A value stands for a moment and is no text. -/
  | notMoment
  /-- A list has no item at a position. -/
  | noItem
  /-- A whole number is beyond the doubles. -/
  | beyondDoubles
  /-- The quotient of two whole numbers is beyond the doubles. -/
  | quotientBeyondDoubles
  /-- A double is divided by zero. -/
  | zeroDivisor
  deriving DecidableEq, Repr

/-- The wording of a misuse. -/
def Misuse.message : Misuse → String
  | unordered relation l r =>
    "'" ++ relation ++ "' not supported between instances of '" ++ l ++ "' and '" ++ r ++ "'"
  | unjoined operation l r =>
    "unsupported operand type(s) for " ++ operation ++ ": '" ++ l ++ "' and '" ++ r ++ "'"
  | unjoinedText k => "can only concatenate str (not \"" ++ k ++ "\") to str"
  | notWhole k => "'" ++ k ++ "' object cannot be interpreted as an integer"
  | notPath k => "expected str, bytes or os.PathLike object, not " ++ k
  | notSpelling k => "startswith first arg must be str or a tuple of str, not " ++ k
  | notName k => "'" ++ k ++ "' object has no attribute 'lower'"
  | notTable k => "'" ++ k ++ "' object has no attribute 'items'"
  | notSettings k => "'" ++ k ++ "' object has no attribute 'get'"
  | notContainer k => "argument of type '" ++ k ++ "' is not iterable"
  | notItems k => "'" ++ k ++ "' object is not iterable"
  | unchangeable k => "'" ++ k ++ "' object does not support item assignment"
  | notIndexed k => "'" ++ k ++ "' object is not subscriptable"
  | noKey shown => shown
  | notCased k => "'" ++ k ++ "' object has no attribute 'isupper'"
  | notLetters k => "'" ++ k ++ "' object has no attribute 'isalpha'"
  | notTextPosition k => "string indices must be integers, not '" ++ k ++ "'"
  | notListPosition k => "list indices must be integers or slices, not " ++ k
  | notEntryItems n =>
    "cannot convert dictionary update sequence element #" ++ toString n ++ " to a sequence"
  | notPair n size =>
    "dictionary update sequence element #" ++ toString n ++ " has length " ++ toString size ++
      "; 2 is required"
  | notCouple k => "cannot unpack non-iterable " ++ k ++ " object"
  | tooFewItems n => "not enough values to unpack (expected 2, got " ++ toString n ++ ")"
  | tooManyItems => "too many values to unpack (expected 2)"
  | notTokens k => "'" ++ k ++ "' object has no attribute 'split'"
  | notLines k => "'" ++ k ++ "' object has no attribute 'splitlines'"
  | notReplaced k => "'" ++ k ++ "' object has no attribute 'replace'"
  | notSearched k => "expected string or bytes-like object, got '" ++ k ++ "'"
  | notShown k => "unable to render " ++ k ++ "; a string or other renderable object is required"
  | noGrammar name known =>
    "Unknown grammar: " ++ name ++ ". Available: " ++ Text.quotedList known
  | noMember shown set => shown ++ " is not a valid " ++ set
  | notKey k => "unhashable type: '" ++ k ++ "'"
  | notEntry key k => "Unsupported metadata value for '" ++ key ++ "': " ++ k
  | notNamed operation k => operation ++ " argument after ** must be a mapping, not " ++ k
  | unknownArgument operation name =>
    operation ++ " got an unexpected keyword argument '" ++ name ++ "'"
  | repeatedArgument operation name =>
    operation ++ " got multiple values for argument '" ++ name ++ "'"
  | repeatedName operation name =>
    operation ++ " got multiple values for keyword argument '" ++ name ++ "'"
  | missingArgument operation name =>
    operation ++ " missing 1 required positional argument: '" ++ name ++ "'"
  | tooManyArguments operation least most given =>
    operation ++ " takes " ++
      (if least = most then toString most else "from " ++ toString least ++ " to " ++ toString most)
      ++ " positional arguments but " ++ toString given ++ " were given"
  | badFormat code k => "Unknown format code '" ++ code ++ "' for object of type '" ++ k ++ "'"
  | noFormat k => "unsupported format string passed to " ++ k ++ ".__format__"
  | notSeed =>
    "The only supported seed types are: None,\nint, float, str, bytes, and bytearray."
  | unencodable f => f.message
  | notSeverity => "level must be an integer"
  | notChannel => "A logger name must be a string"
  | notMemberName k => "attribute name must be string, not '" ++ k ++ "'"
  | notMembers k => "__dict__ must be set to a dictionary, not a '" ++ k ++ "'"
  | notClass k => "__class__ must be set to a class, not '" ++ k ++ "' object"
  | notOperation k => "'" ++ k ++ "' object is not callable"
  | notLevel shown => "Level not an integer or a valid string: " ++ shown
  | unknownLevel name => "Unknown level: " ++ Text.quoted name
  | longNumber =>
    "Exceeds the limit (" ++ toString Text.digitLimit ++ " digits) for integer string " ++
      "conversion; use sys.set_int_max_str_digits() to increase the limit"
  | notDouble k => "float() argument must be a string or a real number, not '" ++ k ++ "'"
  | noDouble text => "could not convert string to float: " ++ Text.quoted text
  | noMoment f => f.message
  | notMoment => "fromisoformat: argument must be str"
  | noItem => "list index out of range"
  | beyondDoubles => "int too large to convert to float"
  | quotientBeyondDoubles => "integer division result too large for a float"
  | zeroDivisor => "float division by zero"

namespace Value

/-- What a value names in a set, whose names are known. -/
def member {α : Type} (set : String) (known : String → Option α) (v : Value) :
    Except Misuse α :=
  let named := match v with
    | .text name => known name
    | _ => none
  match named with
  | some a => .ok a
  | none => .error (.noMember v.literal set)

/-- The moment that a value stands for. -/
def moment : Value → Except Misuse Instant
  | .text s => (Instant.ofIso s).mapError .noMoment
  | _ => .error .notMoment

/-- The text that a value is, where it is cut into tokens. -/
def tokenText : Value → Except Misuse String
  | .text s => .ok s
  | v => .error (.notTokens v.typeName)

/-- The text that a value is, where it is cut into lines. -/
def lineText : Value → Except Misuse String
  | .text s => .ok s
  | v => .error (.notLines v.typeName)

/-- The named values of an operation that a value stands for. -/
def named (operation : String) : Value → Except Misuse (List (String × Value))
  | .object fields => .ok fields
  | v => .error (.notNamed operation v.typeName)

/-- The text that a value is, where it is asked for a character. -/
def indexedText : Value → Except Misuse String
  | .text s => .ok s
  | v => .error (.notIndexed v.typeName)

/-- The value under a name of a value. -/
def under (name : String) : Value → Except Misuse Value
  | .object fields =>
    match Table.get? name fields with
    | some v => .ok v
    | none => .error (.noKey (Text.quoted name))
  | .text _ => .error (.notTextPosition (text name).typeName)
  | .list _ => .error (.notListPosition (text name).typeName)
  | v => .error (.notIndexed v.typeName)

/-- The path that a value is. -/
def pathText : Value → Except Misuse String
  | .text s => .ok s
  | v => .error (.notPath v.typeName)

/-- The items of a value, if its kind has any: those of a list, the names of the fields of an
object, and the characters of a text. -/
def itemsOf? : Value → Option (List Value)
  | .list items => some items
  | .object fields => some (fields.map fun (k, _) => .text k)
  | .text s => some ((Text.points s).map fun n => .text (Text.ofPoints [n]))
  | _ => none

/-- The items of a value that is read item by item. -/
def iterated (v : Value) : Except Misuse (List Value) :=
  match v.itemsOf? with
  | some items => .ok items
  | none => .error (.notItems v.typeName)

/-- The two items of a list. -/
def couple : List Value → Except Misuse (Value × Value)
  | [a, b] => .ok (a, b)
  | items => .error (if items.length < 2 then .tooFewItems items.length else .tooManyItems)

/-- The two items of a value. -/
def pair (v : Value) : Except Misuse (Value × Value) :=
  match v.itemsOf? with
  | none => .error (.notCouple v.typeName)
  | some items => couple items

/-- The pairs that the items of a value are. All items are read before one is taken apart. -/
def pairs (v : Value) : Except Misuse (List (Value × Value)) := do
  let items ← (← v.iterated).mapM iterated
  items.mapM couple

end Value

end GrammarSuite.Json
