import GrammarSuite.Metrics.Basic
import GrammarSuite.Grammar.Basic
import GrammarSuite.Sorting

/-!
# Reports

What a report is about, and the pieces that its formats share. There is no report where a figure is
no number and stands where a number is written.

## Main definitions

* `Report`: the cases, their figures, the grammar and the moment of a report
* `Report.ranked`: the entries of a table by their values
* `Report.summary`: the short report
-/

namespace GrammarSuite

open Json (Misuse Value)

/-- What a report is about. -/
structure Report where
  cases : List TestCase
  figures : Figures
  grammar : Option Grammar := none
  /-- The moment of the report, if it is known. -/
  now : Except Misuse Instant

namespace Report

/-- The entries of a table figure. -/
def entriesOf : Value → Except Misuse (List (String × Value))
  | .object fields => .ok fields
  | v => .error (.notTable v.typeName)

/-- The entries of a table from the greatest value to the least; equal ones stay in order. The
entries are sorted from the last one to the first. -/
def ranked (table : List (String × Value)) : Except Misuse (List (String × Value)) := do
  pure (← Sorting.sort (fun a b => a.2.less b.2) table.reverse).reverse

/-- A percentage with one place. -/
def percent (v : Value) : Except Misuse String := v.fixed 1

/-- A figure with two places. -/
def figure (v : Value) : Except Misuse String := v.fixed 2

/-- A count with blanks in front up to a width. -/
def count (width : Nat) (v : Value) : Except Misuse String := (Text.padLeft width) <$> v.integral

/-- A line of one repeated character. -/
def rule (width : Nat) : String := String.ofList (List.replicate width '=')

/-- Whether a value is the number zero. -/
def isZero (v : Value) : Bool := v.number?.isSome && !v.truthy

/-- The row of a category in the short report. -/
def summaryRow (label : String) (number share : Value) : Except Misuse String := do
  pure (label ++ (← count 4 number) ++ " (" ++ (← percent share) ++ "%)")

/-- The short report. -/
def summary (f : Figures) : Except Misuse String :=
  if isZero (f.value "total_cases") then .ok "No test cases to report."
  else do
    let valid ← summaryRow "Valid:   " (f.value "valid_cases") (f.value "valid_percentage")
    let invalid ← summaryRow "Invalid: " (f.value "invalid_cases") (f.value "invalid_percentage")
    let extreme ← summaryRow "Extreme: " (f.value "extreme_cases") (f.value "extreme_percentage")
    pure <| Text.unlines [
      rule 40,
      "CLASSIFICATION SUMMARY",
      rule 40,
      "Total cases: " ++ (f.value "total_cases").display,
      valid,
      invalid,
      extreme,
      rule 40]

end Report

/-- A grammar as JSON. -/
def Grammar.toJson (g : Grammar) : Json.Value := .object [
  ("name", g.name),
  ("start_symbol", .text g.start.name),
  ("variables", .list ((Grammar.sortedNames g.nonterminals).map .text)),
  ("terminals", .list ((Grammar.sortedNames g.terminals).map .text)),
  ("productions", .list (g.productions.map fun p => .text p.text))]

end GrammarSuite
