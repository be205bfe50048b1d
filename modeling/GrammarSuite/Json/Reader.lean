import GrammarSuite.Json.Value
import GrammarSuite.Text.Double

/-!
# Reading JSON

A reader of JSON texts. The first fault ends the reading and is reported with its place: what was
expected, the line, the column and the character. Besides the JSON grammar the reader takes `NaN`,
`Infinity` and `-Infinity`; of repeated names in an object the last value counts. A whole number has
at most 4300 digits, and lists and objects are nested in at most 985 levels.

## Main definitions

* `Problem`, `Fault`: why and where a text is no JSON
* `read`: the value of a text
* `Fault.message`: the report of a fault
-/

namespace GrammarSuite.Json

/-- Why a text is no JSON. -/
inductive Problem
  | byteOrderMark
  | expectedValue
  | expectedName
  | expectedColon
  | expectedComma
  | extraData
  | unterminatedString
  | controlCharacter
  | badEscape
  | badUnicodeEscape
  /-- A whole number has too many digits. -/
  | longNumber (digits : Nat)
  /-- A list or an object of a kind is nested too deeply. -/
  | tooDeep (kind : String)
  deriving DecidableEq, Repr

/-- The wording of a problem. -/
def Problem.message : Problem → String
  | byteOrderMark => "Unexpected UTF-8 BOM (decode using utf-8-sig)"
  | expectedValue => "Expecting value"
  | expectedName => "Expecting property name enclosed in double quotes"
  | expectedColon => "Expecting ':' delimiter"
  | expectedComma => "Expecting ',' delimiter"
  | extraData => "Extra data"
  | unterminatedString => "Unterminated string starting at"
  | controlCharacter => "Invalid control character at"
  | badEscape => "Invalid \\escape"
  | badUnicodeEscape => "Invalid \\uXXXX escape"
  | longNumber n =>
    "Exceeds the limit (" ++ toString Text.digitLimit ++
      " digits) for integer string conversion: value has " ++ toString n ++
      " digits; use sys.set_int_max_str_digits() to increase the limit"
  | tooDeep kind =>
    "maximum recursion depth exceeded while decoding a JSON " ++ kind ++ " from a unicode string"

/-- Whether a problem is a limit of the reader, and not one of the form of the text. -/
def Problem.isLimit : Problem → Bool
  | longNumber _ | tooDeep _ => true
  | _ => false

/-- A problem and its place in the text: lines and columns count from one, characters from zero. -/
structure Fault where
  problem : Problem
  line : Nat
  column : Nat
  position : Nat
  deriving DecidableEq, Repr

/-- The report of a fault. A limit of the reader stands without its place. -/
def Fault.message (f : Fault) : String :=
  if f.problem.isLimit then f.problem.message
  else f.problem.message ++ ": line " ++ toString f.line ++ " column " ++ toString f.column ++
    " (char " ++ toString f.position ++ ")"

/-- A problem before the last `rest` characters of the text. -/
structure Stop where
  problem : Problem
  rest : Nat

/-- The place of a stop in the text. -/
def Stop.locate (text : List Char) (s : Stop) : Fault :=
  let before := Text.pointsOf (text.take (text.length - s.rest))
  let isEnd := fun n : Nat => n == '\n'.toNat
  { problem := s.problem
    line := before.countP isEnd + 1
    column := (before.reverse.takeWhile (!isEnd ·)).length + 1
    position := before.length }

/-- A blank between the parts of a JSON text. -/
def isGap (c : Char) : Bool := c == ' ' || c == '\t' || c == '\n' || c == '\r'

/-- A text without the blanks it starts with. -/
def skipGap (s : List Char) : List Char := s.dropWhile isGap

/-- The value of a hexadecimal digit. -/
def hexDigit? (c : Char) : Option Nat :=
  if c.isDigit then some (c.toNat - 48)
  else if 'a' ≤ c ∧ c ≤ 'f' then some (c.toNat - 87)
  else if 'A' ≤ c ∧ c ≤ 'F' then some (c.toNat - 55)
  else none

/-- The number of four hexadecimal digits. -/
def hexUnit? : List Char → Option Nat
  | [a, b, c, d] => do
    let a ← hexDigit? a
    let b ← hexDigit? b
    let c ← hexDigit? c
    let d ← hexDigit? d
    pure (((a * 16 + b) * 16 + c) * 16 + d)
  | _ => none

/-- The character of a one-letter escape. -/
def simpleEscape? : Char → Option Char
  | '"' => some '"'
  | '\\' => some '\\'
  | '/' => some '/'
  | 'b' => some '\x08'
  | 'f' => some '\x0c'
  | 'n' => some '\n'
  | 'r' => some '\r'
  | 't' => some '\t'
  | _ => none

/-- The second unit of a pair, behind a first one, with the text after it. It counts only if the
text goes on after it. -/
def lowUnit? (s : List Char) : Option (Except Stop (Nat × List Char)) :=
  match s with
  | '\\' :: 'u' :: rest =>
    if rest.length ≤ 4 then none
    else
      match hexUnit? (rest.take 4) with
      | none => some (.error ⟨.badUnicodeEscape, rest.length + 1⟩)
      | some n => some (.ok (n, rest.drop 4))
  | _ => none

/-- One escape, from behind its backslash: the code point and the text after it. -/
def readEscape (start : Nat) (s : List Char) : Except Stop (Nat × List Char) :=
  match s with
  | [] => .error ⟨.unterminatedString, start⟩
  | 'u' :: rest =>
    if rest.length ≤ 4 then .error ⟨.badUnicodeEscape, rest.length + 1⟩
    else
      match hexUnit? (rest.take 4) with
      | none => .error ⟨.badUnicodeEscape, rest.length + 1⟩
      | some n =>
        let after := rest.drop 4
        -- A first unit of a pair that no second one follows stands for itself.
        if 0xD800 ≤ n ∧ n < 0xDC00 then
          match lowUnit? after with
          | some (.error e) => .error e
          | some (.ok (low, after')) =>
            if 0xDC00 ≤ low ∧ low < 0xE000 then
              .ok (0x10000 + (n - 0xD800) * 0x400 + (low - 0xDC00), after')
            else .ok (n, after)
          | none => .ok (n, after)
        else .ok (n, after)
  | c :: rest =>
    match simpleEscape? c with
    | some e => .ok (e.toNat, rest)
    | none => .error ⟨.badEscape, rest.length + 2⟩

/-- A string, from behind its opening quote. The characters read so far are kept in reverse. -/
def readString (start : Nat) : Nat → List Char → List Char → Except Stop (String × List Char)
  | 0, _, _ => .error ⟨.unterminatedString, start⟩
  | _ + 1, _, [] => .error ⟨.unterminatedString, start⟩
  | fuel + 1, done, c :: rest =>
    if c = '"' then .ok (String.ofList done.reverse, rest)
    else if c = '\\' then
      match readEscape start rest with
      | .error e => .error e
      | .ok (n, rest) => readString start fuel ((Text.spell n).reverse ++ done) rest
    else if c.toNat < 0x20 then .error ⟨.controlCharacter, rest.length + 1⟩
    else readString start fuel (c :: done) rest

/-- The number of a run of digits. -/
def digitsValue (ds : List Char) : Nat := ds.foldl (fun n d => n * 10 + (d.toNat - 48)) 0

/-- The fraction of a number, if one follows: a point and at least one digit. -/
def readFraction : List Char → List Char × List Char
  | '.' :: rest =>
    let ds := rest.takeWhile Char.isDigit
    if ds.isEmpty then ([], '.' :: rest) else (ds, rest.drop ds.length)
  | s => ([], s)

/-- The exponent of a number, if one follows with at least one digit. -/
def readExponent (s : List Char) : Option Int × List Char :=
  match s with
  | c :: rest =>
    if c = 'e' ∨ c = 'E' then
      let (negative, rest') := match rest with
        | '-' :: r => (true, r)
        | '+' :: r => (false, r)
        | r => (false, r)
      let ds := rest'.takeWhile Char.isDigit
      if ds.isEmpty then (none, s)
      else
        let n : Int := digitsValue ds
        (some (if negative then -n else n), rest'.drop ds.length)
    else (none, s)
  | [] => (none, s)

/-- A number. -/
def readNumber (s : List Char) : Except Stop (Value × List Char) :=
  let (negative, body) := match s with
    | '-' :: r => (true, r)
    | r => (false, r)
  -- No digit may follow a zero in front.
  let whole := match body with
    | '0' :: _ => ['0']
    | r => r.takeWhile Char.isDigit
  if whole.isEmpty then .error ⟨.expectedValue, s.length⟩
  else
    let (fraction, rest) := readFraction (body.drop whole.length)
    let (exponent, rest) := readExponent rest
    if fraction.isEmpty ∧ exponent.isNone then
      let n : Int := digitsValue whole
      if Text.digitLimit < whole.length then .error ⟨.longNumber whole.length, s.length⟩
      else .ok (.int (if negative then -n else n), rest)
    else
      let ds := (whole ++ fraction).map fun d => d.toNat - 48
      .ok (.float (Text.ofDecimal negative ds fraction.length (exponent.getD 0)), rest)

/-- The constant values. -/
def constants : List (String × Value) :=
  [("null", .null), ("true", .bool true), ("false", .bool false),
    ("NaN", .float (Float.ofBits 0x7FF8000000000000)),
    ("Infinity", .float (Text.infinite false)),
    ("-Infinity", .float (Text.infinite true))]

/-- The constant that a text starts with. -/
def readConstant? (s : List Char) : Option (Value × List Char) :=
  constants.findSome? fun (name, v) =>
    if name.toList.isPrefixOf s then some (v, s.drop name.length) else none

mutual

/-- A value, in which some levels may be nested; a text starts with it. -/
def readValue : Nat → Nat → List Char → Except Stop (Value × List Char)
  | 0, _, s => .error ⟨.expectedValue, s.length⟩
  | fuel + 1, levels, s =>
    match s with
    | '"' :: rest =>
      match readString s.length s.length [] rest with
      | .error e => .error e
      | .ok (t, rest) => .ok (.text t, rest)
    | '[' :: rest =>
      match levels, skipGap rest with
      | 0, _ => .error ⟨.tooDeep "array", s.length⟩
      | _ + 1, ']' :: after => .ok (.list [], after)
      | levels + 1, s => readItems fuel levels [] s
    | '\x7b' :: rest =>
      match levels, skipGap rest with
      | 0, _ => .error ⟨.tooDeep "object", s.length⟩
      | _ + 1, '\x7d' :: after => .ok (.object [], after)
      | levels + 1, s => readFields fuel levels [] s
    | s =>
      match readConstant? s with
      | some r => .ok r
      | none => readNumber s

/-- The items of a list up to its end. -/
def readItems : Nat → Nat → List Value → List Char → Except Stop (Value × List Char)
  | 0, _, _, s => .error ⟨.expectedValue, s.length⟩
  | fuel + 1, levels, done, s =>
    match readValue fuel levels s with
    | .error e => .error e
    | .ok (v, rest) =>
      match skipGap rest with
      | ']' :: after => .ok (.list (v :: done).reverse, after)
      | ',' :: after => readItems fuel levels (v :: done) (skipGap after)
      | s => .error ⟨.expectedComma, s.length⟩

/-- The fields of an object up to its end. -/
def readFields :
    Nat → Nat → List (String × Value) → List Char → Except Stop (Value × List Char)
  | 0, _, _, s => .error ⟨.expectedValue, s.length⟩
  | fuel + 1, levels, done, s =>
    match s with
    | '"' :: rest =>
      match readString s.length s.length [] rest with
      | .error e => .error e
      | .ok (name, rest) =>
        match skipGap rest with
        | ':' :: rest =>
          match readValue fuel levels (skipGap rest) with
          | .error e => .error e
          | .ok (v, rest) =>
            match skipGap rest with
            | '\x7d' :: after => .ok (.object (Table.ofPairs ((name, v) :: done).reverse), after)
            | ',' :: after => readFields fuel levels ((name, v) :: done) (skipGap after)
            | s => .error ⟨.expectedComma, s.length⟩
        | s => .error ⟨.expectedColon, s.length⟩
    | s => .error ⟨.expectedName, s.length⟩

end

/-- How deeply lists and objects may be nested. -/
def levelLimit : Nat := 985

/-- The value of a text, or its first fault. -/
def read (text : String) : Except Fault Value :=
  let s := text.toList
  let result : Except Stop Value := match s with
    | '\uFEFF' :: _ => .error ⟨.byteOrderMark, s.length⟩
    | _ =>
      -- Between two calls for a value at least one character is taken, which makes the fuel enough.
      match readValue (2 * s.length + 2) levelLimit (skipGap s) with
      | .error e => .error e
      | .ok (v, rest) =>
        match skipGap rest with
        | [] => .ok v
        | rest => .error (Stop.mk .extraData rest.length)
  result.mapError (Stop.locate s)

end GrammarSuite.Json
