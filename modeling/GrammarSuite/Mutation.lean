import GrammarSuite.Token
import GrammarSuite.Derivation.Basic
import GrammarSuite.Log.Record

/-!
# Mutations

A mutation turns a valid string into an invalid one by one edit of its tokens. There are nine kinds
of edits. Six of them always apply; the other three leave the string as it is when there is nothing
of what they remove or cut.

## Main definitions

* `MutationKind`, `Mutation`: the kinds of edits, and an edited string
* `MutationKind.edit`: the edit of a kind on a list of tokens
* `Mutator.mutate`: a mutation of a string
* `Mutator.mutations`: a number of mutations of drawn kinds
-/

namespace GrammarSuite

open GrammarSuite.Random

/-- The kinds of edits. -/
inductive MutationKind where
  | unbalancedParens
  | duplicateOperator
  | leadingOperator
  | trailingOperator
  | emptyParens
  | missingOperator
  | missingOperand
  | invalidCharacter
  | splitToken
  deriving DecidableEq, Repr

namespace MutationKind

/-- All kinds, in the order in which they are drawn and reported. -/
def all : List MutationKind :=
  [unbalancedParens, duplicateOperator, leadingOperator, trailingOperator, emptyParens,
    missingOperator, missingOperand, invalidCharacter, splitToken]

/-- The name of a kind. -/
def name : MutationKind → String
  | unbalancedParens => "unbalanced_parens"
  | duplicateOperator => "duplicate_operator"
  | leadingOperator => "leading_operator"
  | trailingOperator => "trailing_operator"
  | emptyParens => "empty_parens"
  | missingOperator => "missing_operator"
  | missingOperand => "missing_operand"
  | invalidCharacter => "invalid_character"
  | splitToken => "split_token"

/-- What an edit of a kind does. -/
def description : MutationKind → String
  | unbalancedParens => "Unbalanced parentheses"
  | duplicateOperator => "Duplicated operator"
  | leadingOperator => "Operator at the start of the expression"
  | trailingOperator => "Operator at the end of the expression"
  | emptyParens => "Empty parentheses"
  | missingOperator => "Missing operator between operands"
  | missingOperand => "Missing identifier"
  | invalidCharacter => "Invalid character inserted"
  | splitToken => "Space inserted inside a token"

/-- The kind of a name. -/
def ofName? (n : String) : Option MutationKind := all.find? (·.name = n)

/-- The kind that a value names. -/
def ofValue : Json.Value → Except Json.Misuse MutationKind :=
  Json.Value.member "MutationKind" ofName?

/-- Characters that belong to no expression. -/
def invalidCharacters : List String := ["@", "#", "$", "%", "&", "!", "?"]

section Edits

variable {σ : Type} [Source σ]

/-- A list of tokens with others put in before a position. -/
def insertAt (tokens : List String) (position : Nat) (inserted : List String) : List String :=
  tokens.take position ++ inserted ++ tokens.drop position

/-- Deletes one of the positions, if there are any. -/
def deleteOne (tokens : List String) (positions : List Nat) : Draw σ (List String) :=
  if positions.isEmpty then pure tokens
  else do
    let position ← pick positions
    pure (tokens.eraseIdx position)

/-- Deletes a parenthesis, or inserts one anywhere if there is none. -/
def unbalance (tokens : List String) : Draw σ (List String) :=
  let parens := Token.positions Token.isParen tokens
  if parens.isEmpty then do
    -- The place is drawn before the side.
    let position ← draw 0 (tokens.length + 1)
    let side ← draw 0 2
    pure (insertAt tokens position [if side = 0 then Token.openParen else Token.closeParen])
  else deleteOne tokens parens

/-- Doubles an operator in place, or inserts two before a token if there is none. -/
def duplicate (tokens : List String) : Draw σ (List String) :=
  let operators := Token.positions Token.isOperator tokens
  if operators.isEmpty then do
    let position ← draw 0 tokens.length
    pure (insertAt tokens position ["+", "+"])
  else do
    let position ← pick operators
    let operator ← item tokens position
    pure (insertAt tokens (position + 1) [operator])

/-- Cuts a drawn token in two, if it is longer than one character. -/
def split (tokens : List String) : Draw σ (List String) := do
  let position ← draw 0 tokens.length
  let token ← item tokens position
  if 1 < Text.size token then
    let (front, back) := Text.split (← draw 1 (Text.size token)) token
    pure (tokens.set position (front ++ " " ++ back))
  else pure tokens

/-- The edit of a kind. -/
def edit (identifier : String) (tokens : List String) : MutationKind → Draw σ (List String)
  | unbalancedParens => unbalance tokens
  | duplicateOperator => duplicate tokens
  | leadingOperator => do
    let operator ← pick Token.operators
    pure (operator :: tokens)
  | trailingOperator => do
    let operator ← pick Token.operators
    pure (tokens ++ [operator])
  | emptyParens => do
    let position ← draw 0 (tokens.length + 1)
    pure (insertAt tokens position [Token.openParen, Token.closeParen])
  | missingOperator => deleteOne tokens (Token.positions Token.isOperator tokens)
  | missingOperand => deleteOne tokens (Token.positions (Token.isIdentifier identifier) tokens)
  | invalidCharacter => do
    let position ← draw 0 (tokens.length + 1)
    let character ← pick invalidCharacters
    pure (insertAt tokens position [character])
  | splitToken => split tokens

end Edits

end MutationKind

/-- A string that came from another one by an edit. -/
structure Mutation where
  text : String
  kind : MutationKind
  description : String
  /-- The string that was edited. -/
  unedited : String
  deriving DecidableEq, Repr

/-- A mutation as JSON. -/
def Mutation.toJson (m : Mutation) : Json.Value := .object [
  ("text", .text m.text),
  ("kind", .text m.kind.name),
  ("description", .text m.description),
  ("original", .text m.unedited)]

/-- What edits strings: a source, the spelling of an identifier, and the records made. -/
structure Mutator (σ : Type) where
  source : σ
  identifier : Json.Value := .text Token.defaultIdentifier
  journal : Log.Journal := []

namespace Mutator

variable {σ : Type} [Source σ]

/-- An action on the source. -/
def drawn {α : Type} (x : Draw σ α) : Action (Mutator σ) Failure α :=
  x.within Mutator.source (fun source m => { m with source }) .fault

/-- The spelling of an identifier, for the edit of a kind. Only one of the kinds looks at it, which
needs a text there. -/
def spelling (identifier : Json.Value) (kind : MutationKind) : Except Json.Misuse String :=
  match identifier, kind with
  | .text spelling, _ => .ok spelling
  | v, .missingOperand => .error (.notSpelling v.typeName)
  | _, _ => .ok ""

/-- A mutation of a string by an edit of a kind, or none if the string has no tokens. -/
def mutate (text : String) (kind : MutationKind) :
    Action (Mutator σ) Failure (Option Mutation) := do
  let tokens := Token.tokenize text
  if tokens.isEmpty then pure none
  else
    let identifier ← Failure.required (spelling (← get).identifier kind)
    let edited ← drawn (kind.edit identifier tokens)
    pure (some ⟨Text.unwords edited, kind, kind.description, text⟩)

/-- A mutation of a value. Only a text can be edited. -/
def mutateValue (v : Json.Value) (kind : MutationKind) :
    Action (Mutator σ) Failure (Option Mutation) := do
  mutate (← Failure.required v.tokenText) kind

/-- Mutations of a value by a number of edits whose kinds are drawn. -/
def collect (v : Json.Value) : Nat → Action (Mutator σ) Failure (List Mutation)
  | 0 => pure []
  | n + 1 => do
    let kind ← drawn (pick MutationKind.all)
    let mutation ← mutateValue v kind
    let rest ← collect v n
    pure (mutation.toList ++ rest)

/-- The record of a number of mutations. -/
def madeRecord (number : Nat) (origin : String) : Log.Record :=
  ⟨.debug, Log.Channel.mutation,
    "Generated " ++ toString number ++ " invalid cases from '" ++ origin ++ "'"⟩

/-- Mutations of a value by a number of edits whose kinds are drawn, and a record of them. -/
def mutations (v count : Json.Value) : Action (Mutator σ) Failure (List Mutation) := do
  let n ← Failure.required count.whole
  let found ← collect v n.toNat
  modify fun m => { m with journal := m.journal ++ [madeRecord found.length v.display] }
  pure found

/-- Where the spelling of an identifier is a text, every kind of edit has it. -/
@[simp] theorem spelling_text (spelled : String) (kind : MutationKind) :
    spelling (.text spelled) kind = .ok spelled := rfl

end Mutator

end GrammarSuite
