import GrammarSuite.Grammar.Reader
import GrammarSuite.Json.Misuse

/-!
# Built-in grammars

Five grammars that come with the library, as texts.

## Main definitions

* `Builtin`: the built-in grammars
* `Builtin.ofName?`, `Builtin.ofValue`: a built-in grammar by its name, in any case
* `Builtin.grammar`: a built-in grammar, read
-/

namespace GrammarSuite

/-- A built-in grammar. -/
inductive Builtin where
  | arithmetic
  | fullArithmetic
  | balancedParens
  | assignment
  | json
  deriving DecidableEq, Repr

namespace Builtin

/-- All built-in grammars. -/
def all : List Builtin := [arithmetic, fullArithmetic, balancedParens, assignment, json]

/-- The name of a built-in grammar. -/
def name : Builtin → String
  | arithmetic => "arithmetic"
  | fullArithmetic => "full_arithmetic"
  | balancedParens => "balanced_parens"
  | assignment => "assignment"
  | json => "json"

/-- The names of the built-in grammars. -/
def names : List String := all.map name

/-- A text whose lines are indented, between two line feeds. -/
def block (lines : List String) : String :=
  "\n" ++ String.join (lines.map fun l => "        " ++ l ++ "\n") ++ "        "

/-- The text of a built-in grammar. -/
def text : Builtin → String
  | arithmetic => block [
      "# E = expression (sums), T = term (products), F = factor",
      "E -> E + T | T",
      "T -> T * F | F",
      "F -> ( E ) | id"]
  | fullArithmetic => block [
      "Expr -> Expr + Term | Expr - Term | Term",
      "Term -> Term * Factor | Term / Factor | Factor",
      "Factor -> ( Expr ) | id | num"]
  | balancedParens => block [
      "S -> ( S ) S",
      "S -> ε"]
  | assignment => block [
      "Program -> Stmt | Stmt Program",
      "Stmt -> id = Expr ;",
      "Expr -> Expr + Term | Expr - Term | Term",
      "Term -> id | num | ( Expr )"]
  | json => block [
      "Value -> Object | Array | str | num | true | false | null",
      "Object -> \x7b \x7d | \x7b Members \x7d",
      "Members -> Pair | Pair , Members",
      "Pair -> str : Value",
      "Array -> [ ] | [ Elements ]",
      "Elements -> Value | Value , Elements"]

/-- The built-in grammar of a name in any case. -/
def ofName? (n : String) : Option Builtin := all.find? (·.name = Text.foldAscii n)

/-- The built-in grammar that a value names. -/
def ofValue : Json.Value → Except Json.Misuse Builtin
  | .text n =>
    match ofName? n with
    | some b => .ok b
    | none => .error (.noGrammar n names)
  | v => .error (.notName v.typeName)

/-- A built-in grammar, read. -/
def grammar (b : Builtin) : Except GrammarError Grammar := Grammar.ofText b.text (.text b.name)

end Builtin

end GrammarSuite
