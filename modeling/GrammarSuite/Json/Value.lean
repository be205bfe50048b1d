import GrammarSuite.Table
import GrammarSuite.Decimal.Shortest
import GrammarSuite.Text.Integer
import GrammarSuite.Text.Quoted

/-!
# JSON values

A JSON value keeps whole numbers, of any size, apart from doubles, and the fields of an object in
their order.

## Main definitions

* `Value`: a JSON value
* `Value.truthy`: whether a value counts as set
* `Value.typeName`: the name of a value's kind in messages
* `Value.display`: a value as it stands in a message
* `Value.isWritable`: whether all whole numbers in a value have few enough digits to be written
* `Value.toInt`, `Value.toFloat`, `Value.items`, `Value.fields`: what a value holds
* `numberLayout`: how a double is written
-/

namespace GrammarSuite.Json

/-- A JSON value. -/
inductive Value where
  | null
  | bool (b : Bool)
  | int (n : Int)
  | float (x : Float)
  | text (s : String)
  | list (items : List Value)
  | object (fields : List (String × Value))
  deriving Inhabited

/-- A double is written positionally from `0.0001` up to below ten to the sixteenth, and with an
exponent of at least two digits beyond. -/
def numberLayout : Decimal.Layout where
  least := -4
  bound := 16
  exponentDigits := 2
  infinite := "Infinity"
  undefined := "NaN"

namespace Value

/-- A value counts as set unless it is null, false, zero or empty. -/
def truthy : Value → Bool
  | null => false
  | bool b => b
  | int n => n != 0
  | float x => !(x == 0.0)
  | text s => !s.isEmpty
  | list items => !items.isEmpty
  | object fields => !fields.isEmpty

/-- The name of a value's kind. -/
def typeName : Value → String
  | null => "NoneType"
  | bool _ => "bool"
  | int _ => "int"
  | float _ => "float"
  | text _ => "str"
  | list _ => "list"
  | object _ => "dict"

/-- The text of a double in a message. -/
def displayFloat (x : Float) : String :=
  Decimal.text { numberLayout with infinite := "inf", undefined := "nan" } x

mutual

/-- A value inside another one in a message: texts are quoted. -/
def literal : Value → String
  | null => "None"
  | bool b => if b then "True" else "False"
  | int n => toString n
  | float x => displayFloat x
  | text s => Text.quoted s
  | list items => "[" ++ ", ".intercalate (literals items) ++ "]"
  | object fields => "\x7b" ++ ", ".intercalate (fieldLiterals fields) ++ "\x7d"

/-- The items of a list in a message. -/
def literals : List Value → List String
  | [] => []
  | v :: vs => literal v :: literals vs

/-- The fields of an object in a message. -/
def fieldLiterals : List (String × Value) → List String
  | [] => []
  | (k, v) :: rest => (Text.quoted k ++ ": " ++ literal v) :: fieldLiterals rest

end

/-- A value in a message: a text stands as it is. -/
def display : Value → String
  | text s => s
  | v => literal v

/-- The least number that has too many digits to be written. -/
def unwritable : Nat := Decimal.tenPow Text.digitLimit

mutual

/-- Whether all whole numbers in a value have few enough digits to be written. -/
def isWritable : Value → Bool
  | int n => n.natAbs < unwritable
  | list items => areWritable items
  | object fields => fieldsAreWritable fields
  | _ => true

/-- Whether the items of a list can be written. -/
def areWritable : List Value → Bool
  | [] => true
  | v :: vs => isWritable v && areWritable vs

/-- Whether the fields of an object can be written. -/
def fieldsAreWritable : List (String × Value) → Bool
  | [] => true
  | (_, v) :: rest => isWritable v && fieldsAreWritable rest

end

/-- A value as a whole number: a truth value is zero or one, and other values are zero. -/
def toInt : Value → Int
  | int n => n
  | bool b => if b then 1 else 0
  | _ => 0

/-- A value as a double. -/
def toFloat : Value → Float
  | float x => x
  | v => Decimal.ofInt v.toInt

/-- Whether a value is a truth value. -/
def isTruth : Value → Bool
  | bool _ => true
  | _ => false

/-- The items of a list; other values have none. -/
def items : Value → List Value
  | list items => items
  | _ => []

/-- The fields of an object; other values have none. -/
def fields : Value → List (String × Value)
  | object fields => fields
  | _ => []

/-- The field of an object. -/
def field? (name : String) : Value → Option Value
  | object fields => Table.get? name fields
  | _ => none

end Value

end GrammarSuite.Json
