import GrammarSuite.Display.Basic
import GrammarSuite.Display.Markup
import GrammarSuite.Report.Basic
import GrammarSuite.Run.Basic

/-!
# Panels

The displays of cases, metrics, derivations and grammars. Contents and descriptions of cases, the
terminals and productions of a grammar and the forms of a derivation are shown as they are, whatever
markup they look like; names and titles may hold markup.

## Main definitions

* `Display.ofCases`, `Display.ofMetrics`, `Display.ofDerivation`, `Display.ofGrammar`: a display of
  each
* `Display.figures`: a panel of labelled figures
* `Display.ofOutcome`: the display of a run
-/

namespace GrammarSuite.Display

open Json (Misuse Value)

/-- The style of the frames. -/
def frame : String := "bright_blue"

/-- The style of a category. -/
def categoryStyle : Category → String
  | .valid => "green"
  | .invalid => "red"
  | .extreme => "yellow"

/-- The columns of a table of cases. -/
def caseColumns : List Column := [
  { header := "ID", style := "bright_white", unbroken := true },
  { header := "Category", width := some 8 },
  { header := "Content", style := "bright_cyan" },
  { header := "Tokens", side := .right, style := "magenta" },
  { header := "Description", style := "bright_black" }]

/-- A value as markup that shows it as it is. Only a text can be shown so. -/
def plainly : Value → Except Misuse String
  | .text s => .ok (Markup.escape s)
  | v => .error (.notSearched v.typeName)

/-- A value as markup. -/
def asMarkup : Value → Except Misuse String
  | .text s => .ok s
  | .null => .ok ""
  | v => .error (.notShown v.typeName)

/-- The row of a case. -/
def caseRow (c : TestCase) : Except Misuse (List String) := do
  let content ← plainly c.content
  let tokens := ((c.metadata.get? "token_count").map Value.display).getD ""
  let description ← plainly c.description
  pure [← asMarkup c.id, Markup.styled (categoryStyle c.category) c.category.name, content, tokens,
    description]

/-- A table of cases, one row for each. -/
def ofCases (cases : List TestCase) : Except Misuse Display := do
  pure (table (some "[bold bright_cyan]TEST CASES") (some frame) true true
    (Column.fill caseColumns (← cases.mapM caseRow)))

/-- The style of figures whose style is not given. -/
def figureStyle : String := "bright_cyan"

/-- A panel of labelled figures. -/
def figures (title : String) (entries : List (String × String)) (style : String) : Display :=
  panel (.text ("[bold " ++ style ++ "]" ++ title)) frame true <|
    grid true [{ side := .right, style := "bold bright_white" }, { style := "bold " ++ style }]
      (entries.map fun (label, value) => [label ++ ":", value])

/-- A count with its share in percent. -/
def share (count percentage : Value) : Except Misuse String := do
  pure (count.display ++ " (" ++ (← Report.percent percentage) ++ "%)")

/-- A panel of the figures of a suite. -/
def ofMetrics (f : Figures) : Except Misuse Display := do
  let distribution := figures "DISTRIBUTION" [
    ("Total", (f.value "total_cases").display),
    ("Valid", ← share (f.value "valid_cases") (f.value "valid_percentage")),
    ("Invalid", ← share (f.value "invalid_cases") (f.value "invalid_percentage")),
    ("Extreme", ← share (f.value "extreme_cases") (f.value "extreme_percentage"))] "green"
  let sizes := figures "SIZE" [
    ("Avg tokens", ← Report.figure (f.value "avg_length")),
    ("Min / Max", (f.value "min_length").display ++ " / " ++ (f.value "max_length").display),
    ("Max depth", (f.value "max_depth").display),
    ("Avg depth", ← Report.figure (f.value "avg_depth"))] figureStyle
  let byKind ← Report.entriesOf (f.value "operators_by_type")
  let entries ← byKind.mapM fun (operator, count) => do pure (operator, ← count.shown)
  let operators := figures "OPERATORS"
    (entries ++ [("Total", ← (f.value "total_operators").shown)]) "magenta"
  let time := figures "TIME" [
    ("Elapsed", (← Report.figure (f.value "elapsed_ms")) ++ " ms"),
    ("Per case", (← Report.figure (f.value "ms_per_case")) ++ " ms")] "yellow"
  pure (panel (.text "[bold bright_blue]METRICS") frame true
    (row [distribution, sizes, operators, time] true true))

/-- The row of a step of a derivation. -/
def stepRow (step : Step) (number : Nat) : List String := [
  toString number,
  Markup.escape step.form.text,
  Markup.escape (match step.production with
    | some p => "(" ++ p.text ++ ")"
    | none => "")]

/-- The steps of a derivation, under a title, or under its text if the title counts as unset. -/
def ofDerivation (d : Derivation) (title : Value) : Display :=
  let usual :=
    Markup.styled "bold bright_blue" ("Derivation of " ++ Markup.escape (Text.quoted d.text))
  let title := if title.truthy then title else .text usual
  panel title frame true <|
    grid false [{ side := .right, style := "bold bright_white" }, { style := "bright_cyan" },
        { style := "bright_black" }]
      (d.steps.zipIdx.map fun (step, number) => stepRow step number)

/-- The rows of the productions of a grammar; the first one has a label. -/
def productionRows : List Production → List (List String)
  | [] => []
  | p :: rest =>
    ["Productions:", Markup.escape p.text] :: rest.map fun q => ["", Markup.escape q.text]

/-- A panel of the symbols and productions of a grammar. -/
def ofGrammar (g : Grammar) : Display :=
  panel (.text (Markup.styled "bold bright_blue" ("Grammar " ++ g.shownName))) frame true <|
    grid false [{ style := "bold bright_white", width := some 12 }, { style := "bright_cyan" }] <|
      [["Start:", g.start.name],
        ["Variables:", ", ".intercalate (Grammar.sortedNames g.nonterminals)],
        ["Terminals:", Markup.escape (", ".intercalate (Grammar.sortedNames g.terminals))],
        ["", ""]] ++ productionRows g.productions

/-- The display of a run: its derivations, if they are asked for, its cases and its metrics. -/
def ofOutcome (o : Outcome) (traces : Bool) : Except Misuse Display := do
  let derivations := if traces then o.derivations.map fun d => ofDerivation d .null else []
  pure (stack (derivations ++ [← ofCases o.cases, ← ofMetrics o.metrics.figures]))

end GrammarSuite.Display
