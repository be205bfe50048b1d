import GrammarSuite.Report.Basic

/-!
# The Markdown report

The report as Markdown, with the cases in a table. A bar inside a content is escaped, so that it
does not end the cell.

## Main definitions

* `Report.escapeBars`: a content without bare bars
* `Report.markdownRow`: the row of a case
* `Report.markdown`: the report
-/

namespace GrammarSuite.Report

open Json (Misuse Value)

/-- A text with a backslash in front of every bar. -/
def escapeBars (s : String) : String :=
  String.ofList (s.toList.flatMap fun c => if c = '|' then ['\\', '|'] else [c])

/-- A mark around inline code. -/
def codeMark : String := "\x60"

/-- The row of a case, whose content must be a text. -/
def markdownRow (c : TestCase) : Except Misuse String :=
  match c.content with
  | .text content => .ok <|
    "| " ++ c.id.display ++ " | " ++ c.category.name ++ " | " ++ codeMark ++ escapeBars content ++
      codeMark ++ " | " ++ c.description.display ++ " |"
  | v => .error (.notReplaced v.typeName)

/-- The row of a category. -/
def distributionRow (label : String) (number percentage : Value) : Except Misuse String := do
  pure ("| " ++ label ++ " | " ++ number.display ++ " | " ++ (← percent percentage) ++ "% |")

/-- The lines of the report. -/
def markdownLines (r : Report) : Except Misuse (List String) := do
  let now ← r.now
  let f := r.figures
  let fence := codeMark ++ codeMark ++ codeMark
  let elapsed ← figure (f.value "elapsed_ms")
  let valid ← distributionRow "Valid" (f.value "valid_cases") (f.value "valid_percentage")
  let invalid ← distributionRow "Invalid" (f.value "invalid_cases") (f.value "invalid_percentage")
  let extreme ← distributionRow "Extreme" (f.value "extreme_cases") (f.value "extreme_percentage")
  let averageLength ← figure (f.value "avg_length")
  let averageDepth ← figure (f.value "avg_depth")
  let operators ← (f.value "total_operators").shown
  let rows ← r.cases.mapM markdownRow
  pure <|
    ["# Test Suite" ++ (match r.grammar with
      | some g => ": " ++ g.shownName
      | none => ""),
    "",
    "**Generated**: " ++ now.shown,
    "**Total Cases**: " ++ (f.value "total_cases").display,
    "**Execution Time**: " ++ elapsed ++ " ms",
    ""] ++
    (match r.grammar with
      | none => []
      | some g => ["## Grammar", "", fence] ++ g.productions.map Production.text ++ [fence, ""]) ++
    ["## Distribution",
      "",
      "| Category | Count | Percentage |",
      "|----------|-------|------------|",
      valid, invalid, extreme,
      "",
      "## Statistics",
      "",
      "- **Tokens**: avg " ++ averageLength ++ ", min " ++ (f.value "min_length").display ++
        ", max " ++ (f.value "max_length").display,
      "- **Depth**: avg " ++ averageDepth ++ ", max " ++ (f.value "max_depth").display,
      "- **Operators**: " ++ operators,
      "",
      "## Test Cases",
      "",
      "| ID | Category | Content | Description |",
      "|----|----------|---------|-------------|"] ++
    rows ++ [""]

/-- The report as Markdown. -/
def markdown (r : Report) : Except Misuse String := r.markdownLines.map Text.unlines

end GrammarSuite.Report
