import GrammarSuite.Report.Basic

/-!
# The text report

The full report as plain text, in titled sections. Sections that would be about nothing are left
out: the grammar, the depths, the kinds of mutations and of extreme strings.

## Main definitions

* `Report.heading`: the head of a section
* `Report.operatorLines`: the operators that occur, with their shares
* `Report.text`: the report
-/

namespace GrammarSuite.Report

open Json (Misuse Value)

/-- The head of a section. -/
def heading (title : String) : List String := [rule 80, title, rule 80, ""]

/-- The share of a value among a total, in percent. -/
def share (part total : Value) : Except Misuse Float := do
  match part.number? with
  | none => throw (.unjoined "*" part.typeName "float")
  | some n =>
    let hundredfold := (← n.toDouble) * 100.0
    match total.number? with
    | none => throw (.unjoined "/" "float" total.typeName)
    | some t => do
      let t ← t.toDouble
      if t == 0.0 then throw .zeroDivisor
      pure (hundredfold / t)

/-- The operators that occur, with their shares. -/
def operatorLines (total : Value) : List (String × Value) → Except Misuse (List String)
  | [] => .ok []
  | (op, v) :: rest => do
    if ← v.positive then
      let x ← share v total
      let line := "  " ++ Text.padLeft 3 op ++ " : " ++ (← count 5 v) ++ " (" ++
        Text.padLeft 5 (← percent (.float x)) ++ "%)"
      pure (line :: (← operatorLines total rest))
    else operatorLines total rest

/-- The kinds that occur, with their numbers. -/
def kindLines : List (String × Value) → Except Misuse (List String)
  | [] => .ok []
  | (kind, v) :: rest => do
    if ← v.positive then
      let line := "  " ++ Text.padRight 20 kind ++ ": " ++ (← count 3 v)
      pure (line :: (← kindLines rest))
    else kindLines rest

/-- The section about the depths; nothing if there are none. -/
def depthLines (f : Figures) : Except Misuse (List String) := do
  if ← (f.value "max_depth").positive then
    pure (heading "DEPTH STATISTICS" ++
      ["  Maximum: " ++ (f.value "max_depth").display,
        "  Average: " ++ (← figure (f.value "avg_depth")), ""])
  else pure []

/-- The section about the kinds of a category; nothing if it has no cases. -/
def kindSection (title : String) (cases table : Value) : Except Misuse (List String) := do
  if cases.truthy then
    pure (heading title ++ (← kindLines (← ranked (← entriesOf table))) ++ [""])
  else pure []

/-- The cases of a category under its label; nothing if there are none. -/
def categoryLines (cases : List TestCase) (category : Category) : List String :=
  let selected := cases.filter (·.category = category)
  if selected.isEmpty then []
  else
    [category.label ++ " (" ++ toString selected.length ++ "):"] ++
      selected.flatMap (fun c => [
        "  " ++ c.id.display ++ ": " ++ c.content.display, "      " ++ c.description.display]) ++
      [""]

/-- The lines about the grammar at the head of the report. -/
def grammarLine (g : Grammar) : String :=
  "Grammar: " ++ g.shownName ++ " (start symbol " ++ g.start.name ++ ")"

/-- The row of a category. -/
def categoryRow (label : String) (number percentage : Value) : Except Misuse String := do
  pure ("  " ++ label ++ ": " ++ (← count 5 number) ++ " (" ++
    Text.padLeft 5 (← percent percentage) ++ "%)")

/-- The lines of the report. -/
def textLines (r : Report) : Except Misuse (List String) := do
  let now ← r.now
  let f := r.figures
  let elapsed ← figure (f.value "elapsed_ms")
  let perCase ← figure (f.value "ms_per_case")
  let valid ← categoryRow "Valid   " (f.value "valid_cases") (f.value "valid_percentage")
  let invalid ← categoryRow "Invalid " (f.value "invalid_cases") (f.value "invalid_percentage")
  let extreme ← categoryRow "Extreme " (f.value "extreme_cases") (f.value "extreme_percentage")
  let averageLength ← figure (f.value "avg_length")
  let depths ← depthLines f
  let operators ← operatorLines (f.value "total_operators")
    (← ranked (← entriesOf (f.value "operators_by_type")))
  let total ← (f.value "total_operators").shown
  let mutations ← kindSection "MUTATION KINDS" (f.value "invalid_cases")
    (f.value "mutations_by_kind")
  let extremes ← kindSection "EXTREME CASE KINDS" (f.value "extreme_cases")
    (f.value "extremes_by_kind")
  pure <|
    [rule 80, "CFGCASES TEST SUITE REPORT", rule 80, "", "Generated: " ++ now.shown] ++
    (r.grammar.map grammarLine).toList ++ [""] ++
    (match r.grammar with
      | none => []
      | some g => heading "GRAMMAR" ++ g.productions.map (fun p => "  " ++ p.text) ++ [""]) ++
    heading "SUMMARY" ++
    ["Total Cases: " ++ (f.value "total_cases").display,
      "Execution Time: " ++ elapsed ++ " ms",
      "Time per Case: " ++ perCase ++ " ms",
      ""] ++
    heading "CATEGORY DISTRIBUTION" ++ [valid, invalid, extreme, ""] ++
    heading "LENGTH STATISTICS (tokens)" ++
    ["  Average: " ++ averageLength,
      "  Minimum: " ++ (f.value "min_length").display,
      "  Maximum: " ++ (f.value "max_length").display,
      ""] ++
    depths ++
    heading "OPERATORS" ++ operators ++
    ["  Total: " ++ total, ""] ++
    mutations ++ extremes ++
    heading "TEST CASES" ++ Category.all.flatMap (categoryLines r.cases) ++
    [rule 80, "END OF REPORT", rule 80]

/-- The full report as plain text. -/
def text (r : Report) : Except Misuse String := r.textLines.map Text.unlines

end GrammarSuite.Report
