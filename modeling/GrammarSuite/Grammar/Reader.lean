import GrammarSuite.Grammar.Basic
import GrammarSuite.Text.Capital
import GrammarSuite.Text.Lowercase

/-!
# Grammars as texts

The text of a grammar has one rule a line. A rule is a nonterminal, the arrow `->` and alternatives
set apart by `|`; a sharp sign starts a comment. An alternative that is empty or spells out epsilon
stands for the empty body. A word is a nonterminal if it is a single upper-case character, or if it
starts with one and has letters only; every other word is a terminal. The head of the first rule is
the start symbol.

Reading goes on line by line over a `Reader`, which holds the symbols and productions met so far.
A line that is no rule ends the reading and leaves the reader as the lines before it did.

## Main definitions

* `RuleFault`, `Rule.ofLine`: one line as a rule
* `Reader`, `Reader.addRule`: the state of the reading
* `Reader.read`, `Reader.readValue`: a whole text
* `Grammar.ofText`, `Grammar.ofValue`: the grammar of a text
-/

namespace GrammarSuite

open Text

/-- Whether a word is spelled as a nonterminal. -/
def isNonterminalSpelling : List Char → Bool
  | [] => false
  | c :: rest => isUppercase c && (rest.isEmpty || (c :: rest).all isLetter)

/-- Whether a list whose first item is given is spelled as a nonterminal: the item must be a text in
capitals, and nothing can be said if there are others behind it. -/
def isListedNonterminal (first : Json.Value) (others : List Json.Value) :
    Except Json.Misuse Bool :=
  match first, others with
  | .text s, [] => .ok (isCapital s.toList)
  | .text s, _ =>
    if isCapital s.toList then .error (.notLetters (Json.Value.list others).typeName)
    else .ok false
  | v, _ => .error (.notCased v.typeName)

/-- Whether a value is spelled as a nonterminal. A value that counts as unset is not. -/
def isSpelledNonterminal : Json.Value → Except Json.Misuse Bool
  | .text s => .ok (isNonterminalSpelling s.toList)
  | .list (first :: others) => isListedNonterminal first others
  | .object (_ :: _) => .error (.noKey (Json.Value.int 0).literal)
  | v => if v.truthy then .error (.notIndexed v.typeName) else .ok false

/-- The symbol of a word. -/
def Symbol.ofWord (word : List Char) : Symbol :=
  if isNonterminalSpelling word then .nonterminal (String.ofList word)
  else .terminal (String.ofList word)

/-- Why a line is no rule. -/
inductive RuleFault
  | arrowCount
  | emptyHead
  | severalWords (head : String)
  | terminalHead (head : String)
  deriving DecidableEq, Repr

/-- The wording of a fault. -/
def RuleFault.message : RuleFault → String
  | arrowCount => "Invalid production, expected 'A -> B C D'"
  | emptyHead => "Production left side is empty"
  | severalWords head => "Production left side must be a single symbol, got '" ++ head ++ "'"
  | terminalHead head => "Production left side '" ++ head ++ "' is not a non-terminal"

/-- A rule: a head and the bodies of its alternatives. -/
structure Rule where
  head : String
  bodies : List Form
  deriving DecidableEq, Repr

/-- The pieces of a text between the arrows. -/
def splitArrow : List Char → List (List Char)
  | [] => [[]]
  | '-' :: '>' :: rest => [] :: splitArrow rest
  | c :: rest => (splitArrow rest).modifyHead (c :: ·)

@[simp] theorem splitArrow_arrow (s : List Char) :
    splitArrow ('-' :: '>' :: s) = [] :: splitArrow s := rfl

theorem splitArrow_ne_nil (s : List Char) : splitArrow s ≠ [] := by
  fun_induction splitArrow s with
  | case1 => simp
  | case2 rest ih => simp
  | case3 c rest hne ih => simpa using ih

/-- The spellings of epsilon in lower case. -/
def epsilonSpellings : List (List Char) := [['ε'], "epsilon".toList, "lambda".toList]

/-- Whether a text stands for epsilon: it is empty, or spells it out in any case. -/
def isEpsilonSpelling (s : List Char) : Bool :=
  s.isEmpty || epsilonSpellings.contains (lowercase s)

/-- The body that an alternative stands for. -/
def readBody (alternative : List Char) : Form :=
  if isEpsilonSpelling (trim alternative) then [] else (words alternative).map Symbol.ofWord

/-- The head that the text before the arrow stands for. -/
def readHead (s : List Char) : Except RuleFault String :=
  let s := trim s
  if s.isEmpty then .error .emptyHead
  else if (words s).length ≠ 1 then .error (.severalWords (String.ofList s))
  else if isNonterminalSpelling s then .ok (String.ofList s)
  else .error (.terminalHead (String.ofList s))

/-- The rule of a line without comment. -/
def Rule.ofLine (line : List Char) : Except RuleFault Rule :=
  match splitArrow line with
  | [before, after] => do
    let head ← readHead before
    .ok ⟨head, (after.splitOn '|').map readBody⟩
  | _ => .error .arrowCount

/-- The productions of a rule, one for each alternative. -/
def Rule.productions (r : Rule) : List Production := r.bodies.map (⟨r.head, ·⟩)

/-- A line without its comment and the blanks around it. -/
def stripComment (line : List Char) : List Char := trim (line.takeWhile (· != '#'))

/-- What has been read: the names of the symbols in the order of their first use, the productions
in order, and the start symbol. -/
structure Reader where
  nonterminals : List String := []
  terminals : List String := []
  productions : List Production := []
  start : Option String := none
  deriving DecidableEq, Repr

namespace Reader

/-- A list with a name at its end, unless it has the name already. -/
def note (name : String) (names : List String) : List String :=
  if name ∈ names then names else names ++ [name]

/-- Enters a nonterminal. -/
def noteNonterminal (r : Reader) (name : String) : Reader :=
  { r with nonterminals := note name r.nonterminals }

/-- Enters a symbol in the list of its kind. -/
def noteSymbol (r : Reader) : Symbol → Reader
  | .nonterminal n => r.noteNonterminal n
  | .terminal n => { r with terminals := note n r.terminals }

/-- Enters the symbols of a body, then the production. -/
def addProduction (r : Reader) (p : Production) : Reader :=
  let r := p.body.foldl noteSymbol r
  { r with productions := r.productions ++ [p] }

/-- Enters a rule: its head, then its productions. The first head is the start symbol. -/
def addRule (r : Reader) (rule : Rule) : Reader :=
  -- The head is entered before the symbols of the bodies.
  let r := r.noteNonterminal rule.head
  let r := { r with start := r.start.or (some rule.head) }
  rule.productions.foldl addProduction r

/-- Reads one line; a line without content changes nothing. -/
def readLine (r : Reader) (line : List Char) : Except RuleFault Reader :=
  let content := stripComment line
  if content.isEmpty then .ok r else (Rule.ofLine content).map r.addRule

/-- Reads lines, numbered from `n`, up to the first that is no rule. -/
def readLines (r : Reader) (n : Nat) : List (List Char) → Option Malformed × Reader
  | [] => (none, r)
  | line :: rest =>
    match r.readLine line with
    | .ok r => r.readLines (n + 1) rest
    | .error fault =>
      (some { reason := fault.message, lineNumber := some (n : Int)
              line := some (String.ofList (trimEnd line)) }, r)

/-- The report of a text without rules. -/
def noRules : Malformed := { reason := "Grammar text contains no productions" }

/-- The grammar of what has been read. -/
def grammar (r : Reader) (name : Json.Value) : Except GrammarError Grammar :=
  match r.start with
  | none => .error (.malformed noRules)
  | some start =>
    (Grammar.ofParts name (r.nonterminals.map .nonterminal) (r.terminals.map .terminal)
      r.productions (.nonterminal start)).mapError .invalid

/-- Reads a text from scratch, whatever has been read before, and returns its grammar and the
reader after it. -/
def read (_ : Reader) (text : String) (name : Json.Value) : Except GrammarError Grammar × Reader :=
  match readLines {} 1 (lines text.toList) with
  | (some m, r) => (.error (.malformed m), r)
  | (none, r) => (r.grammar name, r)

/-- Reads a value from scratch, which must be a text. -/
def readValue (r : Reader) (v name : Json.Value) : Except GrammarError Grammar × Reader :=
  match v.lineText with
  | .ok text => r.read text name
  | .error m => (.error (.misuse m), {})

end Reader

namespace Grammar

/-- The grammar of a text. -/
def ofText (text : String) (name : Json.Value) : Except GrammarError Grammar :=
  (Reader.read {} text name).1

/-- The grammar of a value, which must be a text. -/
def ofValue (v name : Json.Value) : Except GrammarError Grammar := (Reader.readValue {} v name).1

/-- The name of a grammar that was not given one. -/
def defaultName : Json.Value := .text "grammar"

/-- The record of a grammar that was read. -/
def readRecord (g : Grammar) : Log.Record where
  level := .info
  channel := Log.Channel.reader
  message := "Parsed grammar '" ++ g.shownName ++ "' with " ++ toString g.productions.length ++
    " productions (start symbol: " ++ g.start.name ++ ")"

/-- The records of a reading. -/
def readJournal : Except GrammarError Grammar → Log.Journal
  | .ok g => [g.checkedRecord, g.readRecord]
  | .error _ => []

end Grammar

end GrammarSuite
