import GrammarSuite.Display.Basic
import GrammarSuite.Display.Markup
import GrammarSuite.Text.Points

/-!
# Displays as plain text

A display as lines without styles: tags are dropped, columns are as wide as their widest cell,
panels are indented below their titles, and what stands beside each other is set below each other.

## Main definitions

* `Markup.plain`: markup without its tags
* `Display.lines`: the lines of a display
-/

namespace GrammarSuite

namespace Markup

/-- Markup behind a number of backslashes without its tags; the flag says whether a tag is being
dropped. A tag behind an odd number of backslashes is none. -/
def plainFrom : Bool → Nat → List Char → List Char
  | _, pending, [] => slashes pending
  | true, _, c :: rest => plainFrom (c != ']') 0 rest
  | false, pending, c :: rest =>
    if c = '\\' then plainFrom false (pending + 1) rest
    else if c = '[' ∧ opensTag rest then
      if pending % 2 = 1 then slashes (pending / 2) ++ '[' :: plainFrom false 0 rest
      else slashes (pending / 2) ++ plainFrom true 0 rest
    else slashes pending ++ c :: plainFrom false 0 rest

/-- Markup without its tags. -/
def plain (markup : String) : String := String.ofList (plainFrom false 0 markup.toList)

end Markup

namespace Column

/-- The header and the cells of a column as they are shown. -/
def shown (c : Column) (headed : Bool) : List String :=
  (if headed then [c.header] else []) ++ c.cells.map Markup.plain

/-- The cells of a column, all with one width. -/
def padded (c : Column) (headed : Bool) : List String :=
  let cells := c.shown headed
  let width := (cells.map Text.size).max?.getD 0
  cells.map fun s => match c.side with
    | .left => Text.padRight width s
    | .right => Text.padLeft width s

/-- The lines of columns beside each other. -/
def joined : List (List String) → List String
  | [] => []
  | [cells] => cells
  | cells :: rest => List.zipWith (fun a b => a ++ "  " ++ b) cells (joined rest)

end Column

namespace Display

mutual

/-- The lines of a display. -/
def lines : Display → List String
  | table title _ _ headed columns =>
    (title.map Markup.plain).toList ++ Column.joined (columns.map fun c => c.padded headed)
  | panel title _ _ body => Markup.plain title.display :: (lines body).map ("  " ++ ·)
  | row items _ _ => allLines items
  | stack items => allLines items

/-- The lines of displays below each other. -/
def allLines : List Display → List String
  | [] => []
  | d :: rest => lines d ++ allLines rest

end

end Display

end GrammarSuite
