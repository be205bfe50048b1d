import GrammarSuite.Json.Number

/-!
# Values compared

Numbers are compared by their size, texts by their code points, and lists by the first items that
are not the same, or else by their lengths. No other values have an order. Values may be the same
though they have no order: a truth value is the same as the number it counts as, and objects are the
same if they have the same fields, in any order.

## Main definitions

* `Relation`: which order of two values is asked for
* `Value.same`: whether two values are the same
* `Value.holds`: whether values are in the order asked for
* `Value.less`, `Value.exceeds`, `Value.reaches`, `Value.positive`: values compared
* `Value.contains`: whether a value contains a name

## Main statements

* `same_text`, `text_same`: what is the same as a text
* `holds_text`: two texts have an order
-/

namespace GrammarSuite.Json

/-- Which order of two values is asked for. -/
inductive Relation where
  | less
  | greater
  | atLeast
  deriving DecidableEq, Repr

namespace Relation

/-- The sign of a relation. -/
def symbol : Relation → String
  | less => "<"
  | greater => ">"
  | atLeast => ">="

/-- Whether things are in a relation, from whether the first one is less, whether the second one
is, and whether they are equal. -/
def decided (first second equal : Bool) : Relation → Bool
  | less => first
  | greater => second
  | atLeast => second || equal

end Relation

/-- Whether two numbers are equal. A double that is no number equals itself. -/
def Number.same (a b : Number) : Bool :=
  a.isUndefined == b.isUndefined && !a.less b && !b.less a

namespace Value

mutual

/-- Whether two values are the same. -/
def same : Value → Value → Bool
  | list xs, w =>
    match w with
    | list ys => sameItems xs ys
    | _ => false
  | object fs, w =>
    match w with
    | object gs => fs.length == gs.length && sameFields fs gs
    | _ => false
  | text s, w =>
    match w with
    | text t => s == t
    | _ => false
  | null, w =>
    match w with
    | null => true
    | _ => false
  | v, w =>
    match v.number?, w.number? with
    | some a, some b => a.same b
    | _, _ => false

/-- Whether two lists have the same items. -/
def sameItems : List Value → List Value → Bool
  | [], ys => ys.isEmpty
  | x :: xs, ys =>
    match ys with
    | y :: ys => same x y && sameItems xs ys
    | [] => false

/-- Whether fields are among others with the same values. -/
def sameFields : List (String × Value) → List (String × Value) → Bool
  | [], _ => true
  | (k, v) :: rest, gs =>
    (match Table.get? k gs with
      | some w => same v w
      | none => false) && sameFields rest gs

end

/-- Whether two lengths are in a relation. -/
def lengthsHold (r : Relation) (m n : Nat) : Bool := r.decided (m < n) (n < m) (m == n)

/-- Whether two values that are no lists are in a relation. -/
def plainHold (r : Relation) (v w : Value) : Except Misuse Bool :=
  match v.number?, w.number?, v, w with
  | some a, some b, _, _ => .ok (r.decided (a.less b) (b.less a) (a.equal b))
  | _, _, text s, text t => .ok (r.decided (Text.precedes s t) (Text.precedes t s) (s == t))
  | _, _, v, w => .error (.unordered r.symbol v.typeName w.typeName)

mutual

/-- Whether two values are in a relation. -/
def holds (r : Relation) : Value → Value → Except Misuse Bool
  | list xs, w =>
    match w with
    | list ys => itemsHold r xs ys
    | w => .error (.unordered r.symbol "list" w.typeName)
  | v, w => plainHold r v w

/-- Whether two lists are in a relation. -/
def itemsHold (r : Relation) : List Value → List Value → Except Misuse Bool
  | [], ys => .ok (lengthsHold r 0 ys.length)
  | x :: xs, ys =>
    match ys with
    | y :: ys => if same x y then itemsHold r xs ys else holds r x y
    | [] => .ok (lengthsHold r (xs.length + 1) 0)

end

/-- Whether a value is less than another one. -/
def less (v w : Value) : Except Misuse Bool := holds .less v w

/-- Whether a value is greater than another one. -/
def exceeds (v w : Value) : Except Misuse Bool := holds .greater v w

/-- Whether a value is at least another one. -/
def reaches (v w : Value) : Except Misuse Bool := holds .atLeast v w

/-- Whether a value is greater than zero. -/
def positive (v : Value) : Except Misuse Bool := v.exceeds (int 0)

/-- Whether a value contains a name: a list as an item, an object as the name of a field, and a text
as a part. -/
def contains (name : String) : Value → Except Misuse Bool
  | list items => .ok (items.any (same (text name)))
  | object fields => .ok (Table.get? name fields).isSome
  | text s => .ok (Text.isPart name s)
  | v => .error (.notContainer v.typeName)

/-- Only a text is the same as itself. -/
@[simp] theorem same_text (v : Value) (s : String) : same v (text s) = true ↔ v = text s := by
  cases v <;> simp [same, number?]

/-- A text is the same only as itself. -/
@[simp] theorem text_same (v : Value) (s : String) : same (text s) v = true ↔ v = text s := by
  cases v with
  | text t => simpa [same] using eq_comm
  | _ => simp [same]

/-- Two texts have an order. -/
theorem holds_text (r : Relation) (s t : String) : holds r (text s) (text t) =
    .ok (r.decided (Text.precedes s t) (Text.precedes t s) (s == t)) := by
  simp [holds, plainHold, number?]

end Value

end GrammarSuite.Json
