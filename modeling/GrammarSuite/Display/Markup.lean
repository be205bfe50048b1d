/-!
# Markup

Text with styles in square brackets. A text that is to be shown as it is must not be taken for
markup, so its tags are escaped: a bracket, a small letter or one of `#`, `/` and `@`, and a
closing bracket before the next opening one. The backslashes in front of a tag are doubled, and one
more is added. A text must not end with a lone backslash either, since a tag may follow it.

## Main definitions

* `Markup.opensTag`: whether a tag goes on behind its bracket
* `Markup.escape`: a text with its tags escaped
* `Markup.styled`: a text in a style
-/

namespace GrammarSuite.Markup

/-- A character that a tag may start with. -/
def isTagStart (c : Char) : Bool := c.isLower || c == '#' || c == '/' || c == '@'

/-- Whether the text behind an opening bracket goes on as a tag. -/
def opensTag : List Char → Bool
  | [] => false
  | c :: rest =>
    isTagStart c && (rest.dropWhile fun c => c != '[' && c != ']').head? == some ']'

/-- A number of backslashes. -/
def slashes (n : Nat) : List Char := List.replicate n '\\'

/-- A text behind a number of backslashes, with its tags escaped. -/
def escapeFrom : Nat → List Char → List Char
  | pending, [] => slashes pending
  | pending, c :: rest =>
    if c = '\\' then escapeFrom (pending + 1) rest
    else if c = '[' ∧ opensTag rest then
      slashes (2 * pending + 1) ++ '[' :: escapeFrom 0 rest
    else slashes pending ++ c :: escapeFrom 0 rest

/-- A text whose last backslash is not alone. -/
def closed (s : List Char) : List Char :=
  match s.reverse with
  | '\\' :: '\\' :: _ => s
  | '\\' :: _ => s ++ ['\\']
  | _ => s

/-- A text as markup that shows it as it is. -/
def escape (text : String) : String := String.ofList (closed (escapeFrom 0 text.toList))

/-- A text in a style. -/
def styled (style text : String) : String := "[" ++ style ++ "]" ++ text ++ "[/]"

end GrammarSuite.Markup
