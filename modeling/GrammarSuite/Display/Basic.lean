import GrammarSuite.Json.Value

/-!
# Displays

What is shown on a terminal with room for tables: tables, framed panels, and several of them beside
or below each other. Titles and cells hold markup; the title of a panel may be a value of any kind,
which stays as it is. How wide a table is drawn is not said here.

## Main definitions

* `Column`: a column of a table, with its cells
* `Display`: what is shown
* `Column.fill`, `Display.grid`: columns with cells, and a table without lines and headers
* `Display.toJson`: a display as JSON
-/

namespace GrammarSuite

/-- The side on which the text of a column starts. -/
inductive Side where
  | left
  | right
  deriving DecidableEq, Repr

/-- A column of a table. -/
structure Column where
  header : String := ""
  side : Side := .left
  style : String := ""
  width : Option Nat := none
  /-- Whether a long text stays on one line. -/
  unbroken : Bool := false
  cells : List String := []
  deriving DecidableEq, Repr

/-- What is shown. -/
inductive Display where
  /-- A table with its lines in a style; a table without a style has no lines. -/
  | table (title border : Option String) (wide headed : Bool) (columns : List Column)
  /-- A frame around a display. -/
  | panel (title : Json.Value) (border : String) (wide : Bool) (body : Display)
  /-- Displays beside each other. -/
  | row (items : List Display) (equal wide : Bool)
  /-- Displays below each other. -/
  | stack (items : List Display)

/-- The name of a side. -/
def Side.name : Side → String
  | left => "left"
  | right => "right"

namespace Column

/-- A column as JSON. -/
def toJson (c : Column) : Json.Value := .object [
  ("header", .text c.header),
  ("justify", .text c.side.name),
  ("style", .text c.style),
  ("width", match c.width with
    | some n => .int n
    | none => .null),
  ("no_wrap", .bool c.unbroken),
  ("cells", .list (c.cells.map .text))]

/-- The columns of a table with the cells of its rows. -/
def fill (columns : List Column) (rows : List (List String)) : List Column :=
  columns.zipIdx.map fun (c, i) => { c with cells := rows.map fun r => r[i]?.getD "" }

end Column

namespace Display

/-- A table without lines and headers. -/
def grid (wide : Bool) (columns : List Column) (rows : List (List String)) : Display :=
  table none none wide false (Column.fill columns rows)

mutual

/-- A display as JSON. -/
def toJson : Display → Json.Value
  | table title border wide headed columns => .object [
      ("table", match title with
        | some t => .text t
        | none => .null),
      ("border_style", .text (border.getD "None")),
      ("expand", .bool wide),
      ("show_header", .bool headed),
      ("columns", .list (columns.map Column.toJson))]
  | panel title border wide body => .object [
      ("panel", title),
      ("border_style", .text border),
      ("expand", .bool wide),
      ("body", toJson body)]
  | row items equal wide => .object [
      ("row", .list (eachJson items)),
      ("equal", .bool equal),
      ("expand", .bool wide)]
  | stack items => .object [("group", .list (eachJson items))]

/-- Displays as JSON. -/
def eachJson : List Display → List Json.Value
  | [] => []
  | d :: rest => toJson d :: eachJson rest

end

end Display

end GrammarSuite
