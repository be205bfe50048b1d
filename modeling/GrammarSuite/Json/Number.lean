import GrammarSuite.Json.Misuse
import GrammarSuite.Text.Double

/-!
# Numbers among JSON values

Whole numbers and doubles are numbers, and so are the truth values, which count as zero and one.
Whole numbers are added exactly, and as doubles where a double takes part; a whole number and a
double are compared exactly. Values that are no numbers have no sum.

## Main definitions

* `Number`, `Value.number?`: numbers, and the number that a value stands for
* `Number.less`, `Number.add`: order and sum
* `Value.whole`, `Value.double`: the whole number, and the double, that a value stands for
* `Value.position`: the position that a value names
* `Value.added`: the sum of a number and a value
* `Value.fixed`, `Value.integral`: values written as numbers
* `Value.written`, `Value.shown`: a value written in a format, and in a message
-/

namespace GrammarSuite.Json

/-- A number. -/
inductive Number where
  | whole (n : Int)
  | double (x : Float)

namespace Number

/-- Whether a whole number is less than a double. -/
def wholeLess (n : Int) (x : Float) : Bool :=
  match Decimal.fraction? x with
  | some (numerator, denominator) => n * denominator < numerator
  | none => !Decimal.isNegative x && Decimal.Magnitude.ofFloat x = .infinite

/-- Whether a double is less than a whole number. -/
def lessWhole (x : Float) (n : Int) : Bool :=
  match Decimal.fraction? x with
  | some (numerator, denominator) => numerator < n * denominator
  | none => Decimal.isNegative x && Decimal.Magnitude.ofFloat x = .infinite

/-- Whether a number is less than another one. -/
def less : Number → Number → Bool
  | whole a, whole b => a < b
  | whole a, double b => wholeLess a b
  | double a, whole b => lessWhole a b
  | double a, double b => a < b

/-- Whether a number is a double that is none. -/
def isUndefined : Number → Bool
  | whole _ => false
  | double x => Decimal.Magnitude.ofFloat x = .undefined

/-- Whether two numbers are equal. -/
def equal (a b : Number) : Bool :=
  !a.isUndefined && !b.isUndefined && !a.less b && !b.less a

/-- The double nearest to a number. -/
def toDouble : Number → Except Misuse Float
  | whole n =>
    let x := Decimal.ofInt n
    if Decimal.Magnitude.ofFloat x = .infinite then .error .beyondDoubles else .ok x
  | double x => .ok x

/-- The sum of two numbers. -/
def add : Number → Number → Except Misuse Number
  | whole a, whole b => .ok (whole (a + b))
  | a, b => do pure (double ((← a.toDouble) + (← b.toDouble)))

/-- The name of the kind of a number. -/
def typeName : Number → String
  | whole _ => "int"
  | double _ => "float"

/-- A number as a value. -/
def toValue : Number → Value
  | whole n => .int n
  | double x => .float x

end Number

namespace Value

/-- The number that a value stands for. -/
def number? : Value → Option Number
  | int n => some (.whole n)
  | bool b => some (.whole (if b then 1 else 0))
  | float x => some (.double x)
  | _ => none

/-- The whole number that a value stands for. -/
def whole : Value → Except Misuse Int
  | int n => .ok n
  | bool b => .ok (if b then 1 else 0)
  | v => .error (.notWhole v.typeName)

/-- The position in a list of a size that a value names. Negative numbers count from the end. -/
def position (size : Nat) (v : Value) : Except Misuse Nat :=
  match v.whole with
  | .error _ => .error (.notListPosition v.typeName)
  | .ok n =>
    let n := if n < 0 then n + size else n
    if 0 ≤ n ∧ n < size then .ok n.toNat else .error .noItem

/-- The double that a value stands for: a number, or a text in which one is written. -/
def double (v : Value) : Except Misuse Float :=
  match v.number?, v with
  | some n, _ => n.toDouble
  | none, text s =>
    match Text.double? s with
    | some x => .ok x
    | none => .error (.noDouble s)
  | none, v => .error (.notDouble v.typeName)

/-- The sum of a number and a value, under the name of the operation. -/
def added (operation : String) (total : Number) (v : Value) : Except Misuse Number :=
  match v.number? with
  | some n => total.add n
  | none => .error (.unjoined operation total.typeName v.typeName)

/-- The text that a value has in a format, if it can be written. -/
def written (format : Value → String) (v : Value) : Except Misuse String :=
  if v.isWritable then .ok (format v) else .error .longNumber

/-- A value in a message. -/
def shown (v : Value) : Except Misuse String := v.written display

/-- A value with a fixed number of decimal places. -/
def fixed (places : Nat) (v : Value) : Except Misuse String :=
  match v.number? with
  | some n => do pure (Decimal.fixed places (← n.toDouble))
  | none =>
    match v with
    | text _ => .error (.badFormat "f" v.typeName)
    | v => .error (.noFormat v.typeName)

/-- A value as the digits of a whole number. -/
def integral (v : Value) : Except Misuse String :=
  match v with
  | int n => (int n).shown
  | bool b => .ok (if b then "1" else "0")
  | float _ | text _ => .error (.badFormat "d" v.typeName)
  | v => .error (.noFormat v.typeName)

end Value

end GrammarSuite.Json
