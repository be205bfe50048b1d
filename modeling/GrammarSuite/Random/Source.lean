import GrammarSuite.Action

/-!
# Sources of random numbers

A source answers draws from ranges of natural numbers. Everything random in this library takes a
source as a parameter: the engines use no more of it than that a draw from a nonempty range lies in
the range, which is what `LawfulSource` says.

A draw can go wrong in three ways: a source that has no numbers, an empty range and a position
outside a list. They are errors here, so that it is a statement, and not an assumption, that the
engines never meet the last two.

## Main definitions

* `Source`, `LawfulSource`: a source of random numbers
* `Fault`: what can go wrong in a draw
* `Draw`: an action that draws
* `draw`, `item`, `pick`: a number from a range, an item at a position, an item of a list
-/

namespace GrammarSuite.Random

/-- A source of random numbers with states in `σ`. -/
class Source (σ : Type) where
  /-- Whether the source has numbers at all. -/
  ready : σ → Bool := fun _ => true
  /-- The next number of the range from `low` up to but not including `high`. -/
  next : (low high : Nat) → σ → Nat × σ

/-- A source that has numbers, and whose draws from nonempty ranges lie in the range. -/
class LawfulSource (σ : Type) [Source σ] : Prop where
  ready_eq_true : ∀ s : σ, Source.ready s = true
  next_mem : ∀ {low high : Nat} (s : σ), low < high →
    low ≤ (Source.next low high s).1 ∧ (Source.next low high s).1 < high

/-- What can go wrong in a draw. -/
inductive Fault
  /-- The source has no numbers. -/
  | noNumbers
  /-- There is no number from `low` up to but not including `high`. -/
  | emptyRange (low high : Nat)
  /-- A list of `size` items has no item at `position`. -/
  | noItem (position size : Nat)
  deriving DecidableEq, Repr

/-- The wording of a fault. -/
def Fault.message : Fault → String
  | noNumbers => "integer modulo by zero"
  | emptyRange low high =>
    "empty range for randrange() (" ++ toString low ++ ", " ++ toString high ++ ", " ++
      toString ((high : Int) - low) ++ ")"
  | noItem _ _ => "list index out of range"

/-- An action that draws from a source. -/
abbrev Draw (σ α : Type) := Action σ Fault α

section
variable {σ : Type} [Source σ]

/-- A number of the range from `low` up to but not including `high`. -/
def draw (low high : Nat) : Draw σ Nat := Action.ofFunction fun s =>
  if Source.ready s then
    if low < high then
      let (n, s') := Source.next low high s
      (.ok n, s')
    else (.error (.emptyRange low high), s)
  else (.error .noNumbers, s)

/-- The item at a position. -/
def item {α : Type} (items : List α) (position : Nat) : Draw σ α :=
  match items[position]? with
  | some a => pure a
  | none => throw (.noItem position items.length)

/-- An item of a list, each with the same chance. -/
def pick {α : Type} (items : List α) : Draw σ α := do
  item items (← draw 0 items.length)

/-- A draw succeeds exactly if the source has numbers and the range is not empty. -/
theorem draw_eq_ok_iff {low high n : Nat} {s s' : σ} :
    (draw low high : Draw σ Nat).runOn s = (.ok n, s') ↔
      Source.ready s = true ∧ low < high ∧ Source.next low high s = (n, s') := by
  simp only [draw, Action.runOn_ofFunction]
  by_cases hs : Source.ready s = true
  · by_cases h : low < high
    · simp [hs, h, Prod.ext_iff]
    · simp [hs, h]
  · simp [hs]

omit [Source σ] in
/-- There is an item exactly at the positions of a list, and the source stays as it is. -/
theorem item_eq_ok_iff {α : Type} {items : List α} {i : Nat} {a : α} {s s' : σ} :
    (item items i : Draw σ α).runOn s = (.ok a, s') ↔ items[i]? = some a ∧ s = s' := by
  simp only [item]
  cases items[i]? <;> simp

/-- A pick is the item at a drawn position. -/
theorem pick_eq_ok_iff {α : Type} {items : List α} {a : α} {s s' : σ} :
    (pick items : Draw σ α).runOn s = (.ok a, s') ↔
      ∃ i, Source.ready s = true ∧ Source.next 0 items.length s = (i, s') ∧
        items[i]? = some a := by
  rw [pick, Action.runOn_bind_eq_ok]
  constructor
  · rintro ⟨i, t, hdraw, hitem⟩
    obtain ⟨hs, -, hnext⟩ := draw_eq_ok_iff.1 hdraw
    obtain ⟨ha, rfl⟩ := item_eq_ok_iff.1 hitem
    exact ⟨i, hs, hnext, ha⟩
  · rintro ⟨i, hs, hnext, ha⟩
    have hlt : i < items.length := (List.getElem?_eq_some_iff.1 ha).1
    exact ⟨i, s', draw_eq_ok_iff.2 ⟨hs, by omega, hnext⟩, item_eq_ok_iff.2 ⟨ha, rfl⟩⟩

variable [LawfulSource σ]

/-- A draw from a nonempty range succeeds with a number of the range. -/
theorem draw_eq_ok {low high : Nat} (h : low < high) (s : σ) :
    ∃ n s', (draw low high : Draw σ Nat).runOn s = (.ok n, s') ∧ low ≤ n ∧ n < high :=
  ⟨(Source.next low high s).1, (Source.next low high s).2, by
    simp [draw, h, LawfulSource.ready_eq_true s],
    LawfulSource.next_mem s h⟩

/-- A pick from a nonempty list succeeds with one of its items. -/
theorem pick_eq_ok {α : Type} {items : List α} (h : items ≠ []) (s : σ) :
    ∃ a s', (pick items : Draw σ α).runOn s = (.ok a, s') ∧ a ∈ items := by
  obtain ⟨n, s', hn, -, hlt⟩ := draw_eq_ok (List.length_pos_iff.2 h) s
  refine ⟨items[n], s', ?_, List.getElem_mem hlt⟩
  rw [pick, Action.runOn_bind, hn]
  simp [item, hlt]

end

end GrammarSuite.Random
