import GrammarSuite.Text.Blank

/-!
# Tokens

A generated string is a sequence of tokens with single blanks between them; every measure of a
string is taken on its tokens. Operators, parentheses and identifiers are known by their spelling.

## Main definitions

* `tokenize`: the tokens of a text
* `operators`, `countOperators`, `histogram`: the operators among tokens
* `isIdentifier`, `countIdentifiers`: the identifiers among tokens
* `nestingDepth`: the deepest nesting of parentheses
-/

namespace GrammarSuite.Token

/-- The tokens of a text: its words. -/
def tokenize (text : String) : List String := (Text.words text.toList).map String.ofList

/-- The operators, in the order in which they are reported. -/
def operators : List String := ["+", "*", "-", "/"]

def openParen : String := "("
def closeParen : String := ")"

/-- The usual spelling of an identifier. -/
def defaultIdentifier : String := "id"

/-- Whether a token is an operator. -/
def isOperator (token : String) : Bool := token ∈ operators

/-- Whether a token is a parenthesis. -/
def isParen (token : String) : Bool := token = openParen ∨ token = closeParen

/-- The number of operators. -/
def countOperators (tokens : List String) : Nat := tokens.countP isOperator

/-- The number of each operator. -/
def histogram (tokens : List String) : List (String × Nat) :=
  operators.map fun op => (op, tokens.count op)

/-- Whether a token starts with the spelling of an identifier. -/
def isIdentifier (identifier token : String) : Bool := identifier.toList.isPrefixOf token.toList

/-- The number of identifiers. -/
def countIdentifiers (identifier : String) (tokens : List String) : Nat :=
  tokens.countP (isIdentifier identifier)

/-- The deepest level that tokens reach from a level, and at least `deepest`. A closing parenthesis
lowers the level, below zero too. -/
def nestingFrom (level deepest : Int) : List String → Int
  | [] => deepest
  | t :: rest =>
    if t = openParen then nestingFrom (level + 1) (max deepest (level + 1)) rest
    else if t = closeParen then nestingFrom (level - 1) deepest rest
    else nestingFrom level deepest rest

/-- The deepest nesting of parentheses. -/
def nestingDepth (tokens : List String) : Int := nestingFrom 0 0 tokens

/-- The positions of the tokens with a property, in order. -/
def positions (p : String → Bool) (tokens : List String) : List Nat :=
  (tokens.zipIdx.filter fun (t, _) => p t).map Prod.snd

theorem mem_positions {p : String → Bool} {tokens : List String} {i : Nat} :
    i ∈ positions p tokens ↔ ∃ t, tokens[i]? = some t ∧ p t := by
  simp only [positions, List.mem_map, List.mem_filter, Prod.exists, exists_eq_right]
  constructor
  · rintro ⟨t, h, hp⟩
    exact ⟨t, by simpa [List.mem_zipIdx_iff_getElem?] using h, hp⟩
  · rintro ⟨t, h, hp⟩
    exact ⟨t, by simpa [List.mem_zipIdx_iff_getElem?] using h, hp⟩

end GrammarSuite.Token
