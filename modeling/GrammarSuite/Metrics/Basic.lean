import GrammarSuite.Case.Basic
import GrammarSuite.Mutation
import GrammarSuite.Extreme
import GrammarSuite.Log.Record
import GrammarSuite.Json.Order

/-!
# Metrics of a suite

The figures of a list of cases: how the categories share it, how long and how deep its strings are,
which operators, mutations and extremes occur, and how long the making took. Averages and
percentages are rounded to two places.

The figures are taken from the metadata of the cases, whose entries may be any JSON values: where
one stands for a number and is none, there are no figures. A truth value among numbers counts as
zero or one, and is reported as it is if it is the greatest or the least.

## Main definitions

* `Metrics`, `CategoryFigures`: the figures
* `Metrics.ofCases`: the figures of a list of cases
* `Figures`, `Metrics.figures`: figures by their names
-/

namespace GrammarSuite

open Json (Misuse Number Value)

/-- The figures of the cases of one category. -/
structure CategoryFigures where
  count : Nat
  averageTokens : Float
  maxTokens : Value
  averageOperators : Float
  unbalanced : Nat

/-- The figures of a category as JSON. -/
def CategoryFigures.toJson (f : CategoryFigures) : Value := .object [
  ("count", .int f.count),
  ("avg_tokens", .float f.averageTokens),
  ("max_tokens", f.maxTokens),
  ("avg_operators", .float f.averageOperators),
  ("unbalanced_parens", .int f.unbalanced)]

/-- The figures of a suite. -/
structure Metrics where
  totalCases : Nat := 0
  validCases : Nat := 0
  invalidCases : Nat := 0
  extremeCases : Nat := 0
  validPercentage : Float := 0.0
  invalidPercentage : Float := 0.0
  extremePercentage : Float := 0.0
  averageLength : Float := 0.0
  minLength : Value := .int 0
  maxLength : Value := .int 0
  maxDepth : Value := .int 0
  averageDepth : Float := 0.0
  operators : Table String Number := Token.operators.map fun op => (op, .whole 0)
  totalOperators : Number := .whole 0
  mutations : Table String Nat := MutationKind.all.map fun kind => (kind.name, 0)
  extremes : Table String Nat := ExtremeKind.all.map fun kind => (kind.name, 0)
  elapsed : Float := 0.0
  perCase : Float := 0.0
  categories : Table String CategoryFigures := []

namespace Metrics

/-- The entries of a name in the metadata of cases, where they are present. -/
def entries (name : String) (cases : List TestCase) : List Value :=
  cases.filterMap fun c => c.metadata.get? name

/-- The sum of a list of values. -/
def sumOf (vs : List Value) : Except Misuse Number :=
  vs.foldlM (Value.added "+") (.whole 0)

/-- The average of a total, rounded; zero if there is nothing to average. -/
def average (total : Number) (count : Nat) : Except Misuse Float :=
  if count = 0 then .ok 0.0
  else
    match total with
    | .whole n =>
      let mean := Decimal.nearest (n < 0) n.natAbs count
      if Decimal.Magnitude.ofFloat mean = .infinite then .error .quotientBeyondDoubles
      else .ok (Decimal.roundTo 2 mean)
    | .double x => .ok (Decimal.roundTo 2 (x / Decimal.ofInt count))

/-- The average of values. -/
def averageOf (vs : List Value) : Except Misuse Float := do average (← sumOf vs) vs.length

/-- The greater of two values, the first one unless the second one exceeds it. -/
def greater (best v : Value) : Except Misuse Value := do
  if ← v.exceeds best then pure v else pure best

/-- The smaller of two values, the first one unless the second one is less. -/
def smaller (best v : Value) : Except Misuse Value := do
  if ← v.less best then pure v else pure best

/-- The first of the greatest of a list of values; zero if there are none. -/
def greatest : List Value → Except Misuse Value
  | [] => .ok (.int 0)
  | v :: rest => rest.foldlM greater v

/-- The first of the least of a list of values; zero if there are none. -/
def least : List Value → Except Misuse Value
  | [] => .ok (.int 0)
  | v :: rest => rest.foldlM smaller v

/-- A share in percent, rounded. -/
def percentage (part total : Nat) : Float :=
  if total = 0 then 0.0
  else Decimal.roundTo 2 (Decimal.ofInt part * 100.0 / Decimal.ofInt total)

/-- A table with a value added to the number of an operator, if it has the operator. -/
def addOperator (table : Table String Number) (op : String) (v : Value) :
    Except Misuse (Table String Number) :=
  match table.get? op with
  | some n => (Value.added "+=" n v).map fun n => table.insert op n
  | none => .ok table

/-- The operators of cases, by kind. -/
def countOperators (table : Table String Number) :
    List TestCase → Except Misuse (Table String Number)
  | [] => .ok table
  | c :: rest =>
    match c.metadata.get? "operators" with
    | none => countOperators table rest
    | some (.object found) => do
      countOperators (← found.foldlM (fun table (op, v) => addOperator table op v) table) rest
    | some v => .error (.notTable v.typeName)

/-- A table with an entry counted, if it has the entry. -/
def countEntry (table : Table String Nat) (key : String) : Table String Nat :=
  table.map fun (k, n) => if k = key then (k, n + 1) else (k, n)

/-- The cases of a list by the value of an entry. -/
def countKinds (name : String) (table : Table String Nat) :
    List TestCase → Except Misuse (Table String Nat)
  | [] => .ok table
  | c :: rest =>
    match (c.metadata.get? name).getD .null with
    | .text kind => countKinds name (countEntry table kind) rest
    | .list items => .error (.notKey (Value.list items).typeName)
    | .object fields => .error (.notKey (Value.object fields).typeName)
    | _ => countKinds name table rest

/-- The figures of the cases of one category. A case without an entry counts as empty and
balanced. -/
def categoryFigures (cases : List TestCase) : Except Misuse CategoryFigures := do
  let tokens := cases.map fun c => (c.metadata.get? "token_count").getD (.int 0)
  let averageTokens ← averageOf tokens
  let maxTokens ← greatest tokens
  let averageOperators ←
    averageOf (cases.map fun c => (c.metadata.get? "total_operators").getD (.int 0))
  pure {
    count := cases.length
    averageTokens, maxTokens, averageOperators
    unbalanced := cases.countP fun c =>
      !((c.metadata.get? "parens_balanced").getD (.bool true)).truthy }

/-- The figures of each category. -/
def figuresOfEach (cases : List TestCase) :
    List Category → Except Misuse (Table String CategoryFigures)
  | [] => .ok []
  | category :: rest => do
    let own ← categoryFigures (cases.filter (·.category = category))
    let others ← figuresOfEach cases rest
    pure ((category.name, own) :: others)

/-- The figures of a list of cases that took a number of milliseconds; all are zero if there are no
cases. -/
def ofCases (cases : List TestCase) (elapsed : Float) : Except Misuse Metrics :=
  if cases.isEmpty then .ok {}
  else do
    let total := cases.length
    let count (category : Category) := cases.countP (·.category = category)
    let lengths := entries "token_count" cases
    let averageLength ← averageOf lengths
    let minLength ← least lengths
    let maxLength ← greatest lengths
    let depths := entries "depth" cases
    let maxDepth ← greatest depths
    let averageDepth ← averageOf depths
    let base : Metrics := {}
    let operators ← countOperators base.operators cases
    let totalOperators ← sumOf (operators.map fun (_, n) => n.toValue)
    let mutations ← countKinds "mutation_kind" base.mutations
      (cases.filter (·.category = .invalid))
    let extremes ← countKinds "extreme_kind" base.extremes
      (cases.filter (·.category = .extreme))
    let categories ← figuresOfEach cases Category.all
    pure {
      totalCases := total
      validCases := count .valid
      invalidCases := count .invalid
      extremeCases := count .extreme
      validPercentage := percentage (count .valid) total
      invalidPercentage := percentage (count .invalid) total
      extremePercentage := percentage (count .extreme) total
      averageLength, minLength, maxLength, maxDepth, averageDepth
      operators, totalOperators, mutations, extremes
      elapsed := Decimal.roundTo 2 elapsed
      perCase := Decimal.roundTo 2 (elapsed / Decimal.ofInt total)
      categories }

/-- The record of figures that were computed. -/
def computedRecord (m : Metrics) : Log.Record where
  level := .debug
  channel := Log.Channel.metrics
  message := "Computed metrics for " ++ toString m.totalCases ++ " cases (" ++
    toString m.validCases ++ " valid, " ++ toString m.invalidCases ++ " invalid, " ++
    toString m.extremeCases ++ " extreme)"

/-- The records of the figures of a list of cases. -/
def journal (cases : List TestCase) : Except Misuse Metrics → Log.Journal
  | .ok m => if cases.isEmpty then [] else [m.computedRecord]
  | .error _ => []

end Metrics

/-- The figures of a suite by their names, as they are reported. Figures that were not taken from
cases may be any JSON values. -/
abbrev Figures := Table String Value

namespace Metrics

/-- A table of counts as JSON. -/
def countsJson (table : Table String Nat) : Value := .object (table.map fun (k, n) => (k, .int n))

/-- The figures by their names. -/
def figures (m : Metrics) : Figures := [
  ("total_cases", .int m.totalCases),
  ("valid_cases", .int m.validCases),
  ("invalid_cases", .int m.invalidCases),
  ("extreme_cases", .int m.extremeCases),
  ("valid_percentage", .float m.validPercentage),
  ("invalid_percentage", .float m.invalidPercentage),
  ("extreme_percentage", .float m.extremePercentage),
  ("avg_length", .float m.averageLength),
  ("min_length", m.minLength),
  ("max_length", m.maxLength),
  ("max_depth", m.maxDepth),
  ("avg_depth", .float m.averageDepth),
  ("operators_by_type", .object (m.operators.map fun (op, n) => (op, n.toValue))),
  ("total_operators", m.totalOperators.toValue),
  ("mutations_by_kind", countsJson m.mutations),
  ("extremes_by_kind", countsJson m.extremes),
  ("elapsed_ms", .float m.elapsed),
  ("ms_per_case", .float m.perCase),
  ("category_stats", .object (m.categories.map fun (k, f) => (k, f.toJson)))]

/-- The figures as JSON. -/
def toJson (m : Metrics) : Value := .object m.figures

end Metrics

namespace Figures

/-- The figure of a name. -/
def value (f : Figures) (name : String) : Value := (f.get? name).getD .null

/-- The figures of no cases. -/
def usual : Figures := ({} : Metrics).figures

/-- What fails where figures are given a name that they do not know. One name is that of the figures
themselves. -/
def unknownName (name : String) : Misuse :=
  if name = "self" then .repeatedArgument "SuiteMetrics.__init__()" name
  else .unknownArgument "SuiteMetrics.__init__()" name

/-- The usual figures, some of them changed by the named values of an object. Other names are not
known. -/
def ofNamed (v : Value) : Except Misuse Figures := do
  let fields ← v.named "analysis.metrics.SuiteMetrics()"
  match fields.find? fun (name, _) => (usual.get? name).isNone with
  | some (name, _) => throw (unknownName name)
  | none => pure (Table.merge usual fields)

end Figures

end GrammarSuite
