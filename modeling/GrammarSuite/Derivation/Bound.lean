import GrammarSuite.Derivation.Basic

/-!
# Bounds of derivations

A bound says how many expansions a derivation may take. It may be any number that is at least one:
a derivation takes an expansion while fewer were taken than the bound says, so that a bound between
two whole numbers allows one more than its whole part.

## Main definitions

* `DepthBound`, `DepthBound.limit`: a bound, and the expansions that it allows
* `DepthBound.ofValue`: the bound of a value
-/

namespace GrammarSuite

open Json (Value)

/-- A bound of derivations. -/
structure DepthBound where
  /-- The bound as it was given. -/
  given : Value
  /-- The whole part of the bound. -/
  whole : Nat
  /-- The expansions that the bound allows beyond its whole part: one, if it is no whole number. -/
  excess : Nat := 0
  whole_pos : 0 < whole

namespace DepthBound

/-- The greatest number of expansions of a derivation. -/
def limit (b : DepthBound) : Nat := b.whole + b.excess

/-- A bound that is no number allows this many expansions. -/
def unlimited : Nat := 1000000000

/-- The failure of a value that is too small to be a bound. -/
def refused (v : Value) : Failure := if v.isWritable then .badBound v else .misuse .longNumber

/-- The bound of a double. -/
def ofDouble (x : Float) : Except Failure DepthBound :=
  match Decimal.fraction? x with
  | none =>
    if x < 1.0 then .error (.badBound (.float x))
    else .ok { given := .float x, whole := unlimited, whole_pos := by decide }
  | some (numerator, denominator) =>
    let whole := numerator / denominator
    if h : 1 ≤ whole then
      .ok {
        given := .float x
        whole := whole.toNat
        excess := if numerator % denominator = 0 then 0 else 1
        whole_pos := by omega }
    else .error (.badBound (.float x))

/-- The bound of a value, which must be a number of at least one. -/
def ofValue : Value → Except Failure DepthBound
  | .int n =>
    if h : 1 ≤ n then .ok { given := .int n, whole := n.toNat, whole_pos := by omega }
    else .error (refused (.int n))
  | .bool true => .ok { given := .bool true, whole := 1, whole_pos := by decide }
  | .bool false => .error (.badBound (.bool false))
  | .float x => ofDouble x
  | v => .error (.misuse (.unordered "<" v.typeName (Value.int 1).typeName))

/-- Twice a bound as it was given. Only numbers can be bounds, but texts and lists double too. -/
def doubled : Value → Except Failure Value
  | .int n => .ok (.int (n * 2))
  | .bool b => .ok (.int (if b then 2 else 0))
  | .float x => .ok (.float (x * 2.0))
  | .text s => .ok (.text (s ++ s))
  | .list vs => .ok (.list (vs ++ vs))
  | v => .error (.misuse (.unjoined "*" v.typeName (Value.int 2).typeName))

/-- A whole number of at least one is the bound of as many expansions. -/
theorem ofValue_int {n : Nat} (h : 0 < n) :
    ofValue (.int n) = .ok { given := .int n, whole := n, whole_pos := h } := by
  have h' : (1 : Int) ≤ n := by omega
  simp [ofValue, h']

end DepthBound

end GrammarSuite
