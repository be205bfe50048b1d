import GrammarSuite.Action
import GrammarSuite.Case.Basic
import GrammarSuite.Json.Number
import GrammarSuite.Mutation
import GrammarSuite.Extreme

/-!
# Classification sessions

A session labels strings as cases. One counter is shared by the three categories, so that the
numbers of the identifiers run through a session without gaps until it is reset. Another value may
be put in place of the counter; whether it can be counted on is seen when the next case is made, and
so is whether the present moment is known and whether the content is a text. A case that cannot be
made keeps the number that it took.

## Main definitions

* `Subject`: what is labelled
* `Subject.ofDerivation`, `Subject.ofMutation`, `Subject.ofExtreme`: subjects of the categories
* `Session`: the counter and the spelling of an identifier
* `Session.successor`, `Session.counterText`: counting, and a counter in an identifier
* `Session.classify`, `Session.classifyAll`: the next case, and one for each subject of a list

## Main statements

* `classify_runOn`: where nothing is misused, a case takes the next number
-/

namespace GrammarSuite

open Json (Misuse Value)

/-- What is labelled: a content, with its category, what is said of it, and the entries that cases
of the category have. -/
structure Subject where
  content : Value
  category : Category
  description : Value
  entries : List (String × Value)

namespace Subject

/-- What is said of a valid case. -/
def validDescription : Value := .text "Valid string generated by leftmost derivation"

/-- A valid content, with the length of its trace. -/
def valid (content : Value) (depth : Nat) (description : Value := validDescription) : Subject where
  content := content
  category := .valid
  description := description
  entries := [
    ("generation_method", .text "leftmost_derivation"),
    ("depth", .int depth),
    ("derivation_steps", .int ((depth : Int) - 1))]

/-- A content that was made invalid by an edit. -/
def invalid (content : Value) (kind : MutationKind) (description unedited : Value) : Subject where
  content := content
  category := .invalid
  description := description
  entries := [
    ("generation_method", .text "mutation"),
    ("mutation_kind", .text kind.name),
    ("original", unedited)]

/-- A derivation to be labelled. -/
def ofDerivation (d : Derivation) (description : Value := validDescription) : Subject :=
  valid (.text d.text) d.depth description

/-- A mutation to be labelled. -/
def ofMutation (m : Mutation) : Subject :=
  invalid (.text m.text) m.kind (.text m.description) (.text m.unedited)

/-- An extreme string to be labelled. -/
def ofExtreme (e : Extreme) : Subject where
  content := .text e.text
  category := .extreme
  description := e.description
  entries :=
    [("generation_method", .text "extreme_case"), ("extreme_kind", .text e.kind.name)] ++
      e.measures ++ [("metric", .text e.kind.measure.name)]

end Subject

/-- A classification session. -/
structure Session where
  /-- The spelling of an identifier, if it is a text. -/
  identifier : Value := .text Token.defaultIdentifier
  /-- The number of cases since the session was reset, unless another value took its place. -/
  counter : Value := .int 0

/-- An action that labels strings in a session. -/
abbrev Labelling (α : Type) := Action Session Misuse α

namespace Session

/-- A session that starts counting again. -/
def reset (s : Session) : Session := { s with counter := .int 0 }

/-- The number behind a counter. -/
def successor : Value → Except Misuse Value
  | .int n => .ok (.int (n + 1))
  | .bool b => .ok (.int (if b then 2 else 1))
  | .float x => .ok (.float (x + 1.0))
  | .text _ => .error (.unjoinedText (Value.int 1).typeName)
  | .list _ => .error (.notItems (Value.int 1).typeName)
  | v => .error (.unjoined "+=" v.typeName (Value.int 1).typeName)

/-- The number of an identifier, with at least four places. -/
def numberText (n : Int) : String :=
  if 0 ≤ n then Instant.padded 4 n.toNat else "-" ++ Instant.padded 3 n.natAbs

/-- A counter in an identifier. -/
def counterText : Value → Except Misuse String
  | .int n => (Value.int n).written fun _ => numberText n
  | v => v.integral

/-- A subject with the number of a counter: first the entries of its own category, then those of
every case. -/
def labelled (identifier : Value) (now : Except Misuse Instant) (s : Subject) (counter : Value) :
    Except Misuse TestCase := do
  let number ← counterText counter
  let created ← now
  s.entries.forM fun e => TestCase.checkEntry e.1 e.2
  let content ← s.content.tokenText
  let spelling ← identifierSpelling identifier (Token.tokenize content)
  let case : TestCase := {
    id := .text (s.category.name ++ "_" ++ number)
    content := s.content
    category := s.category
    description := s.description
    created }
  pure (case.annotateAll (s.entries ++ stringMetadata spelling content))

/-- A subject as the next case. -/
def classify (now : Except Misuse Instant) (subject : Subject) : Labelling TestCase :=
  Action.ofFunction fun s =>
    match successor s.counter with
    | .error m => (.error m, s)
    | .ok counter => (labelled s.identifier now subject counter, { s with counter })

/-- The subjects of a list as the next cases, in order. -/
def classifyAll (now : Except Misuse Instant) : List Subject → Labelling (List TestCase)
  | [] => pure []
  | subject :: rest => do
    let case ← classify now subject
    let cases ← classifyAll now rest
    pure (case :: cases)

/-- Entries that may be added pass the check. -/
theorem forM_checkEntry {entries : List (String × Value)} (h : ∀ e ∈ entries, isEntry e.2) :
    (entries.forM fun e => TestCase.checkEntry e.1 e.2) = .ok () := by
  induction entries with
  | nil => rfl
  | cons e rest ih =>
    rw [List.forall_mem_cons] at h
    have hc : TestCase.checkEntry e.1 e.2 = .ok () := by rw [TestCase.checkEntry, if_pos h.1]
    rw [List.forM, hc]
    exact ih h.2

/-- Where the counter is a number that can be written, the moment is known, the spelling of an
identifier and the content are texts and the entries may be added, a case takes the next number. -/
theorem classify_runOn {created : Instant} {content spelling : String} {category : Category}
    {description : Value} {entries : List (String × Value)} {n : Int}
    (hn : (Value.int (n + 1)).isWritable) (he : ∀ e ∈ entries, isEntry e.2) :
    (classify (.ok created) ⟨.text content, category, description, entries⟩).runOn
        ⟨.text spelling, .int n⟩ =
      (.ok (TestCase.annotateAll
        { id := .text (category.name ++ "_" ++ numberText (n + 1))
          content := .text content
          category, description, created }
        (entries ++ stringMetadata spelling content)),
        ⟨.text spelling, .int (n + 1)⟩) := by
  simp [classify, successor, labelled, counterText, Value.written, Value.tokenText, hn,
    identifierSpelling, bind, Except.bind, pure, Except.pure, forM_checkEntry he]

end Session

end GrammarSuite
