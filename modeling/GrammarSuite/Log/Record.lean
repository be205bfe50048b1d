/-!
# Log records

What the parts of the library have to say while they work: a record has a level, the channel it
comes from and a message. Computations return their records as values; where the records go is
decided elsewhere.

## Main definitions

* `Level`: how severe a record is
* `Record`: one message of the log
* `Channel`: the names of the channels
* `Channel.isWithin`: whether a channel belongs to another one
-/

namespace GrammarSuite.Log

/-- How severe a record is. -/
structure Level where
  severity : Int
  /-- Whether the severity was given as a truth value. -/
  isTruth : Bool := false
  deriving DecidableEq, Repr

namespace Level

def unset : Level := { severity := 0 }
def debug : Level := { severity := 10 }
def info : Level := { severity := 20 }
def warning : Level := { severity := 30 }
def error : Level := { severity := 40 }
def critical : Level := { severity := 50 }

/-- The name of a level. A level between the six known ones shows its severity as it was given. -/
def name (l : Level) : String :=
  match l.severity with
  | 50 => "CRITICAL"
  | 40 => "ERROR"
  | 30 => "WARNING"
  | 20 => "INFO"
  | 10 => "DEBUG"
  | 0 => "NOTSET"
  | n => "Level " ++ if l.isTruth then "True" else toString n

/-- The levels by their names, two of which have a short form. -/
def named : List (String × Level) :=
  [("CRITICAL", critical), ("FATAL", critical), ("ERROR", error), ("WARN", warning),
    ("WARNING", warning), ("INFO", info), ("DEBUG", debug), ("NOTSET", unset)]

/-- The upper-case form of a character of a level name: besides the small letters of ASCII, the
dotless i and the long s have an ASCII capital. -/
def upper (c : Char) : Char := if c = 'ı' then 'I' else if c = 'ſ' then 'S' else c.toUpper

/-- The level of a name in any case. An unknown name stands for the level of information. -/
def ofName (name : String) : Level :=
  (named.lookup (String.ofList (name.toList.map upper))).getD info

end Level

/-- One message of the log. -/
structure Record where
  level : Level
  channel : String
  message : String
  deriving DecidableEq, Repr

/-- Records in the order in which they were made. -/
abbrev Journal := List Record

namespace Channel

def main : String := "cfgcases"
def grammar : String := "cfgcases.grammar.cfg"
def reader : String := "cfgcases.grammar.parser"
def derivation : String := "cfgcases.grammar.generator"
def mutation : String := "cfgcases.grammar.mutator"
def extreme : String := "cfgcases.grammar.extremes"
def metrics : String := "cfgcases.analysis.metrics"
def report : String := "cfgcases.analysis.report"
def suite : String := "cfgcases.modes.suite"
def single : String := "cfgcases.modes.single"

/-- The channel that is above all others. -/
def root : String := "root"

/-- The names above a name, the nearest one first, all of them from their ends: the name is cut at
its dots, but a dot right in front of one at which it was cut is passed over. -/
def namesAbove (name : List Char) : List (List Char) :=
  match _h : name.dropWhile (· != '.') with
  | [] => []
  | _ :: rest => if rest.isEmpty then [] else rest :: namesAbove (rest.drop 1)
termination_by name.length
decreasing_by
  have := (List.dropWhile_sublist (l := name) (· != '.')).length_le
  simp_all only [List.length_cons, List.length_drop]
  omega

/-- The nearest channel above a name, among those that are there. -/
def above? (there : List String) (name : String) : Option String :=
  (namesAbove name.toList.reverse).findSome? fun s =>
    let name := String.ofList s.reverse
    if name ∈ there then some name else none

/-- Whether a channel is another one or belongs to it, over as many channels as its name has
characters. -/
def isWithinBy (there : List String) (main : String) : Nat → String → Bool
  | 0, name => name = main
  | steps + 1, name => name = main || match above? there name with
    | some name => isWithinBy there main steps name
    | none => false

/-- Whether a channel is another one or belongs to it, by way of the channels that are there. -/
def isWithin (there : List String) (main name : String) : Bool :=
  isWithinBy (main :: there) main name.length name

end Channel

end GrammarSuite.Log
