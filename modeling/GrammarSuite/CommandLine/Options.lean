import GrammarSuite.Grammar.Builtin
import GrammarSuite.Extreme
import GrammarSuite.Log.Output

/-!
# Options of the command line

The command line is a list of switches. Some of them take a value, as the next argument or behind
an equals sign. A switch may be shortened as long as no other one starts the same way. What stands
alone is an error, and so is everything behind the separator `--`. Where the separator itself is
attached to a switch as its value, the switch has no value, which counts as the empty list.

An argument is a value, and not a switch, if it does not start with a dash, if it is a negative
number, or if it holds a space and is the start of no switch.

## Main definitions

* `Switch`, `Switch.arity`: the switches and whether they take a value
* `Word`, `Word.ofArgument`: what an argument is
* `Options`, `Options.read`: the options of a list of arguments
* `Misuse`, `Stop`: why there are no options
-/

namespace GrammarSuite.CommandLine

open Json (Value)

/-- What a run of the program is for. -/
inductive Mode where
  | suite
  | derive
  | invalid
  | extreme
  | grammar
  /-- A mode that is given and has no name. It makes extreme strings. -/
  | unnamed
  deriving DecidableEq, Repr

namespace Mode

/-- All modes that have names. -/
def all : List Mode := [suite, derive, invalid, extreme, grammar]

/-- The name of a mode. -/
def name : Mode → String
  | suite => "suite"
  | derive => "derive"
  | invalid => "invalid"
  | extreme => "extreme"
  | grammar => "grammar"
  | unnamed => Json.Value.display (.list [])

end Mode

/-- A switch of the command line. -/
inductive Switch where
  | help
  | mode
  | grammar
  | grammarFile
  | listGrammars
  | valid
  | invalid
  | extreme
  | kind
  | input
  | depth
  | seed
  | identifier
  | exportTo
  | report
  | outputDirectory
  | configDirectory
  | saveConfig
  | logLevel
  | logFile
  | quiet
  | tui
  deriving DecidableEq, Repr

/-- Whether a switch takes a value. -/
inductive Arity where
  | none
  | one
  | optional
  deriving DecidableEq, Repr

namespace Switch

/-- All switches. -/
def all : List Switch := [help, mode, grammar, grammarFile, listGrammars, valid, invalid, extreme,
  kind, input, depth, seed, identifier, exportTo, report, outputDirectory, configDirectory,
  saveConfig, logLevel, logFile, quiet, tui]

/-- How a switch is written. -/
def name : Switch → String
  | help => "--help"
  | mode => "--mode"
  | grammar => "--grammar"
  | grammarFile => "--grammar-file"
  | listGrammars => "--list-grammars"
  | valid => "--valid"
  | invalid => "--invalid"
  | extreme => "--extreme"
  | kind => "--kind"
  | input => "--input"
  | depth => "--depth"
  | seed => "--seed"
  | identifier => "--identifier"
  | exportTo => "--export"
  | report => "--report"
  | outputDirectory => "--output-dir"
  | configDirectory => "--config-dir"
  | saveConfig => "--save-config"
  | logLevel => "--log-level"
  | logFile => "--log-file"
  | quiet => "--quiet"
  | tui => "--tui"

/-- Whether a switch takes a value. -/
def arity : Switch → Arity
  | help | listGrammars | report | saveConfig | quiet | tui => .none
  | exportTo => .optional
  | _ => .one

/-- The switch of a full name. -/
def ofName? (name : String) : Option Switch := all.find? (·.name = name)

/-- The switches whose names start with a text. -/
def startingWith (start : String) : List Switch :=
  all.filter fun s => start.toList.isPrefixOf s.name.toList

end Switch

/-- Why a list of arguments cannot be read. -/
inductive Misuse
  /-- Several switches start like an argument. -/
  | ambiguous (argument : String)
  | missingValue (switch : Switch)
  | unexpectedValue (switch : Switch) (value : String)
  | badValue (switch : Switch) (value : String)
  /-- There are arguments that are no switches. -/
  | stray
  deriving DecidableEq, Repr

/-- The wording of a misuse. -/
def Misuse.message : Misuse → String
  | ambiguous a => "ambiguous option: " ++ a
  | missingValue s => "argument " ++ s.name ++ ": expected a value"
  | unexpectedValue s v => "argument " ++ s.name ++ ": unexpected value " ++ Text.quoted v
  | badValue s v => "argument " ++ s.name ++ ": invalid value " ++ Text.quoted v
  | stray => "unrecognized arguments"

/-- Why there are no options: help is asked for, or the arguments cannot be read. -/
inductive Stop
  | help
  | misuse (m : Misuse)
  deriving DecidableEq, Repr

/-- The argument behind which there are no switches. -/
def separator : String := "--"

/-- What an argument is. -/
inductive Word where
  | value (text : String)
  /-- A switch, with the value behind its equals sign. -/
  | switch (s : Switch) (attached : Option String)
  | unknown (text : String)
  | separator
  deriving DecidableEq, Repr

namespace Word

/-- The parts of an argument before and behind its first equals sign. -/
def splitValue (argument : List Char) : String × Option String :=
  match argument.dropWhile (· != '=') with
  | [] => (String.ofList argument, none)
  | _ :: rest => (String.ofList (argument.takeWhile (· != '=')), some (String.ofList rest))

/-- Whether a text holds digits only, and at least one. -/
def isDigits (s : List Char) : Bool := !s.isEmpty && s.all fun c => (Text.digit? c).isSome

/-- Whether an argument is a negative number, whole or with a point before its last digits. A line
feed may end it. -/
def isNegativeNumber : List Char → Bool
  | '-' :: rest =>
    let s := if rest.getLast? = some '\n' then rest.dropLast else rest
    let whole := s.takeWhile (· != '.')
    match s.dropWhile (· != '.') with
    | [] => isDigits whole
    | _ :: fraction => (whole.isEmpty || isDigits whole) && isDigits fraction
  | _ => false

/-- What an argument is that starts no switch. -/
def ofOther (argument : List Char) : Word :=
  if isNegativeNumber argument || argument.elem ' ' then value (String.ofList argument)
  else unknown (String.ofList argument)

/-- What an argument is that starts with two dashes. -/
def ofLong (argument : List Char) : Except Misuse Word :=
  let (start, attached) := splitValue argument
  match Switch.ofName? start with
  | some s => .ok (switch s attached)
  | none =>
    match Switch.startingWith start with
    | [] => .ok (ofOther argument)
    | [s] => .ok (switch s attached)
    | _ => .error (.ambiguous (String.ofList argument))

/-- What an argument is that starts with the short form of the switch for help, from behind it. The
form may be repeated, also behind an equals sign, but it takes no value. -/
def ofShortHelp (rest : List Char) : Word :=
  let repeated := match rest with
    | '=' :: c :: v => c :: v
    | v => v
  if repeated.all (· == 'h') then switch .help none
  else switch .help (some (String.ofList rest))

/-- What an argument is that is not the separator. -/
def ofArgument (argument : String) : Except Misuse Word :=
  match argument.toList with
  | '-' :: '-' :: rest => ofLong ('-' :: '-' :: rest)
  | '-' :: 'h' :: rest => .ok (ofShortHelp rest)
  | '-' :: c :: rest => .ok (ofOther ('-' :: c :: rest))
  | s => .ok (value (String.ofList s))

/-- What the arguments of a list are. Behind the separator there are only values. -/
def ofArguments : List String → Except Misuse (List Word)
  | [] => .ok []
  | argument :: rest =>
    if argument = CommandLine.separator then .ok (separator :: rest.map value)
    else do
      let word ← ofArgument argument
      let words ← ofArguments rest
      pure (word :: words)

end Word

/-- The options of a run of the program. A value that is not given is null. -/
structure Options where
  mode : Mode := .suite
  grammar : Value := .null
  grammarFile : Value := .null
  listGrammars : Bool := false
  validCount : Value := .null
  invalidCount : Value := .null
  extremePerKind : Value := .null
  /-- The kinds of extreme strings; none stands for all. -/
  kinds : List Value := []
  input : Value := .null
  depth : Value := .null
  seed : Value := .null
  identifier : Value := .null
  /-- Where to export to; the empty path stands for a stamped name. -/
  exportTo : Option String := none
  report : Bool := false
  outputDirectory : Value := .null
  configDirectory : Value := .null
  saveConfig : Bool := false
  logLevel : Option String := none
  logFile : Value := .text Log.usualPath
  quiet : Bool := false
  tui : Bool := false

namespace Options

/-- The names of the log levels that can be chosen. -/
def logLevels : List String := ["DEBUG", "INFO", "WARNING", "ERROR"]

/-- Options with a switch that has no value. -/
def withFlag (o : Options) : Switch → Except Stop Options
  | .help => .error .help
  | .listGrammars => .ok { o with listGrammars := true }
  | .report => .ok { o with report := true }
  | .saveConfig => .ok { o with saveConfig := true }
  | .quiet => .ok { o with quiet := true }
  | .tui => .ok { o with tui := true }
  | s => .error (.misuse (.missingValue s))

/-- A value that must be there. -/
def require {α : Type} (s : Switch) (v : String) : Option α → Except Stop α
  | some a => .ok a
  | none => .error (.misuse (.badValue s v))

/-- What stands for the value of a switch that has none. -/
def nothing : Value := .list []

/-- The text of a switch. -/
def textOf : Option String → Value
  | some v => .text v
  | none => nothing

/-- The text of a switch that takes some texts only. -/
def choiceOf (s : Switch) (isChoice : String → Bool) : Option String → Except Stop Value
  | some v => (require s v (if isChoice v then some v else none)).map .text
  | none => .ok nothing

/-- The number of a switch. -/
def numberOf (s : Switch) : Option String → Except Stop Value
  | some v => (require s v (Text.integer? v)).map .int
  | none => .ok nothing

/-- The mode of a text. -/
def modeOf : Option String → Except Stop Mode
  | some v => require .mode v (Mode.all.find? (·.name = v))
  | none => .ok .unnamed

/-- Options with a switch and its value, unless the separator stands for it. -/
def withValue (o : Options) (s : Switch) (v : Option String) : Except Stop Options :=
  match s with
  | .mode => (modeOf v).map fun mode => { o with mode }
  | .grammar => (choiceOf s (· ∈ Builtin.names) v).map fun grammar => { o with grammar }
  | .grammarFile => .ok { o with grammarFile := textOf v }
  | .valid => (numberOf s v).map fun n => { o with validCount := n }
  | .invalid => (numberOf s v).map fun n => { o with invalidCount := n }
  | .extreme => (numberOf s v).map fun n => { o with extremePerKind := n }
  | .kind =>
    (choiceOf s (fun name => (ExtremeKind.ofName? name).isSome) v).map fun kind =>
      { o with kinds := o.kinds ++ [kind] }
  | .input => .ok { o with input := textOf v }
  | .depth => (numberOf s v).map fun depth => { o with depth }
  | .seed => (numberOf s v).map fun seed => { o with seed }
  | .identifier => .ok { o with identifier := textOf v }
  | .exportTo => .ok { o with exportTo := some (v.getD "") }
  | .outputDirectory => .ok { o with outputDirectory := textOf v }
  | .configDirectory => .ok { o with configDirectory := textOf v }
  | .logLevel => do
    let _ ← choiceOf s (· ∈ logLevels) v
    pure { o with logLevel := v }
  | .logFile => .ok { o with logFile := textOf v }
  | s => .error (.misuse (.unexpectedValue s (v.getD CommandLine.separator)))

/-- The value that is attached to a switch, unless the separator stands for it. -/
def attachedValue (v : String) : Option String := if v = CommandLine.separator then none else some v

/-- Options with the words of a list, from the front; the flag says whether there was a word that
is no switch. -/
def readWords (o : Options) (stray : Bool) : List Word → Except Stop Options
  | [] => if stray then .error (.misuse .stray) else .ok o
  | .switch s (some v) :: rest => do
    let o ← o.withValue s (attachedValue v)
    o.readWords stray rest
  | .switch s none :: .value v :: rest =>
    match s.arity with
    | .none => do
      let o ← o.withFlag s
      o.readWords true rest
    | _ => do
      let o ← o.withValue s (some v)
      o.readWords stray rest
  | .switch s none :: rest =>
    match s.arity with
    | .optional => do
      let o ← o.withValue s (some "")
      o.readWords stray rest
    | _ => do
      let o ← o.withFlag s
      o.readWords stray rest
  | _ :: rest => o.readWords true rest

/-- The options of a list of arguments. -/
def read (arguments : List String) : Except Stop Options :=
  match Word.ofArguments arguments with
  | .error m => .error (.misuse m)
  | .ok words => readWords {} false words

end Options

end GrammarSuite.CommandLine
