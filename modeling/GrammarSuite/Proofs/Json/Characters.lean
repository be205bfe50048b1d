import GrammarSuite.Proofs.Json.RoundTrip
import GrammarSuite.Proofs.Text.Lines

/-!
# The characters of written JSON

JSON that is written in ASCII holds characters of ASCII only, and no carriage return. So it is
the same when it has been written to a file and read from it, where line ends are made alike.

## Main definitions

* `IsInk`: a character that written JSON may hold

## Main results

* `isInk_pretty`: the characters of written JSON
* `normalizeNewlines_pretty`: making line ends alike changes nothing
-/

namespace GrammarSuite.Json

open GrammarSuite.Decimal

open Text (points spell)

/-- A character of ASCII other than the carriage return. -/
def IsInk (c : Char) : Prop := c.toNat < 0x80 ∧ c ≠ '\r'

instance (c : Char) : Decidable (IsInk c) := inferInstanceAs (Decidable (_ ∧ _))

theorem isInk_of_isDigit {c : Char} (h : c.isDigit = true) : IsInk c := by
  obtain ⟨hlow, hhigh⟩ : 48 ≤ c.toNat ∧ c.toNat ≤ 57 := Char.isDigit_iff_toNat.1 h
  refine ⟨by omega, ?_⟩
  rintro rfl
  exact absurd hlow (by decide)

theorem AreDigits.isInk {ds : List Char} (h : AreDigits ds) : ∀ c ∈ ds, IsInk c :=
  fun c hc => isInk_of_isDigit (h c hc)

/-- Ink in a row. -/
theorem isInk_append {s t : List Char} :
    (∀ c ∈ s ++ t, IsInk c) ↔ (∀ c ∈ s, IsInk c) ∧ ∀ c ∈ t, IsInk c := List.forall_mem_append

theorem isInk_sign (negative : Bool) : ∀ c ∈ sign negative, IsInk c := by
  cases negative <;> simp [sign, IsInk]

theorem Exponent.isInk {e : Exponent} (h : AreDigits e.digits) : ∀ c ∈ e.text, IsInk c := by
  simp only [Exponent.text, List.forall_mem_cons]
  refine ⟨by decide, ?_, h.isInk⟩
  cases e.negative <;> decide

theorem Spells.isInk {cs : List Char} {r : ℚ} (h : Spells cs r) : ∀ c ∈ cs, IsInk c := by
  obtain ⟨whole, fraction, exponent, rfl, hwhole, hfraction, hexponent, -⟩ := h
  rw [numeral, isInk_append, isInk_append]
  refine ⟨⟨hwhole.1.isInk, ?_⟩, ?_⟩
  · split
    · simp
    · exact List.forall_mem_cons.2 ⟨by decide, hfraction.isInk⟩
  · cases exponent with
    | none => simp
    | some e => exact Exponent.isInk (hexponent e rfl).1

theorem isInk_float (x : Float) : ∀ c ∈ (Decimal.text numberLayout x).toList, IsInk c := by
  rcases h : Magnitude.ofFloat x with ⟨m, q⟩ | _ | _
  · by_cases hm : m = 0
    · simp only [Decimal.text, h, if_pos hm, String.toList_append]
      cases isNegative x <;> simp [IsInk]
    · obtain ⟨cs, htext, hcs⟩ := text_spells h hm
      rw [htext, isInk_append]
      exact ⟨isInk_sign _, hcs.isInk⟩
  · simp only [Decimal.text, h, String.toList_append]
    cases isNegative x <;> simp [IsInk, numberLayout]
  · simp only [Decimal.text, h]
    simp [IsInk, numberLayout]

theorem isInk_int (n : Int) : ∀ c ∈ (toString n).toList, IsInk c := by
  rw [toString_int, isInk_append]
  exact ⟨isInk_sign _, (areDigits_digits _).isInk⟩

/-! ## Texts -/

theorem isInk_digitChar {n : Nat} (h : n < 16) : IsInk n.digitChar := by
  interval_cases n <;> decide

theorem isInk_unitEscape {n : Nat} (h : n < 0x10000) : ∀ c ∈ unitEscape n, IsInk c := by
  rw [unitEscape, hex_four h]
  simp only [List.forall_mem_cons]
  refine ⟨by decide, by decide, isInk_digitChar ?_, isInk_digitChar ?_, isInk_digitChar ?_,
    isInk_digitChar ?_, by simp⟩ <;> omega

theorem isInk_escapedPoint {n : Nat} (h : n < Text.pointCount) :
    ∀ c ∈ escapedPoint true n, IsInk c := by
  rw [Text.pointCount] at h
  unfold escapedPoint
  split
  · rename_i letter hletter
    simp only [List.forall_mem_cons]
    refine ⟨by decide, ?_, by simp⟩
    unfold shortEscape? at hletter
    split_ifs at hletter <;> cases hletter <;> decide
  · rename_i hshort
    split
    · unfold unitEscapes
      split
      · rename_i hsmall
        exact isInk_unitEscape hsmall
      · rw [isInk_append]
        exact ⟨isInk_unitEscape (by omega), isInk_unitEscape (by omega)⟩
    · rename_i hplain
      obtain ⟨hlow, hhigh⟩ : 0x20 ≤ n ∧ n < 0x7F := by simpa using hplain
      have hnat : (Char.ofNat n).toNat = n := Text.toNat_ofNat (.inl (by omega))
      have hmark : Char.ofNat n ≠ Text.mark := by
        intro he
        have := congrArg Char.toNat he
        rw [hnat, Text.mark_toNat] at this
        omega
      have hspell : spell n = [Char.ofNat n] := by
        rw [← Text.spell_toNat hmark, hnat]
      rw [hspell, List.forall_mem_singleton]
      refine ⟨by omega, fun he => ?_⟩
      have := congrArg Char.toNat he
      rw [hnat] at this
      rw [this] at hshort
      exact absurd hshort (by decide)

theorem isInk_escaped (s : String) : ∀ c ∈ (escaped true s).toList, IsInk c := by
  rw [escaped_toList, List.forall_mem_cons, isInk_append]
  refine ⟨by decide, fun c hc => ?_, by simp [IsInk]⟩
  obtain ⟨n, hn, hc⟩ := List.mem_flatMap.1 hc
  exact isInk_escapedPoint (Text.lt_of_mem_pointsOf hn) c hc

theorem isInk_newline (level : Nat) : ∀ c ∈ (newline level).toList, IsInk c := by
  rw [newline, String.toList_ofList, List.forall_mem_cons]
  refine ⟨by decide, fun c hc => ?_⟩
  rw [List.eq_of_mem_replicate hc]
  decide

/-! ## Values -/

theorem isInk_intercalate {ws : List String} (h : ∀ w ∈ ws, ∀ c ∈ w.toList, IsInk c) :
    ∀ c ∈ (",".intercalate ws).toList, IsInk c := by
  intro c hc
  rw [String.toList_intercalate] at hc
  rcases Text.mem_intercalate hc with hcomma | ⟨w, hw, hc⟩
  · obtain rfl : c = ',' := by simpa using hcomma
    decide
  · obtain ⟨w, hmem, rfl⟩ := List.mem_map.1 hw
    exact h w hmem c hc

mutual

/-- **The characters of written JSON.** -/
theorem isInk_pretty (level : Nat) : ∀ v : Value, ∀ c ∈ (pretty true level v).toList, IsInk c
  | .null => by simp [pretty, IsInk]
  | .bool b => by cases b <;> simp [pretty, IsInk]
  | .int n => isInk_int n
  | .float x => isInk_float x
  | .text s => isInk_escaped s
  | .list [] => by simp [pretty_list_nil, IsInk]
  | .list (v :: vs) => by
    rw [pretty_list_cons]
    simp only [String.toList_append, isInk_append]
    have hitems := isInk_intercalate (isInk_prettyItems (level + 1) (v :: vs))
    exact ⟨⟨⟨by simp [IsInk], hitems⟩, isInk_newline level⟩, by simp [IsInk]⟩
  | .object [] => by simp [pretty_object_nil, IsInk]
  | .object (f :: fs) => by
    rw [pretty_object_cons]
    simp only [String.toList_append, isInk_append]
    have hfields := isInk_intercalate (isInk_prettyFields (level + 1) (f :: fs))
    exact ⟨⟨⟨by simp [IsInk], hfields⟩, isInk_newline level⟩, by simp [IsInk]⟩

theorem isInk_prettyItems (level : Nat) :
    ∀ vs : List Value, ∀ w ∈ prettyItems true level vs, ∀ c ∈ w.toList, IsInk c
  | [] => by simp
  | v :: vs => by
    rw [prettyItems_cons, List.forall_mem_cons, String.toList_append, isInk_append]
    exact ⟨⟨isInk_newline level, isInk_pretty level v⟩, isInk_prettyItems level vs⟩

theorem isInk_prettyFields (level : Nat) :
    ∀ fs : List (String × Value), ∀ w ∈ prettyFields true level fs, ∀ c ∈ w.toList, IsInk c
  | [] => by simp
  | (k, v) :: fs => by
    rw [prettyFields_cons, List.forall_mem_cons]
    simp only [String.toList_append, isInk_append]
    exact ⟨⟨⟨⟨isInk_newline level, isInk_escaped k⟩, by simp [IsInk]⟩, isInk_pretty level v⟩,
      isInk_prettyFields level fs⟩

end

/-! ## Line ends -/

theorem normalizeNewlines_cons {c : Char} (h : c ≠ '\r') (s : List Char) :
    Text.normalizeNewlines (c :: s) = c :: Text.normalizeNewlines s := by
  rw [Text.normalizeNewlines, if_neg h]
  exact fun _ hc _ => h hc

theorem normalizeNewlines_eq_self {s : List Char} (h : ∀ c ∈ s, c ≠ '\r') :
    Text.normalizeNewlines s = s := by
  induction s with
  | nil => rfl
  | cons c s ih =>
    obtain ⟨hc, hs⟩ := List.forall_mem_cons.1 h
    rw [normalizeNewlines_cons hc, ih hs]

/-- **Making line ends alike changes nothing of written JSON.** -/
theorem normalizeNewlines_pretty (level : Nat) (v : Value) :
    Text.normalizeNewlines (pretty true level v).toList = (pretty true level v).toList :=
  normalizeNewlines_eq_self fun c hc => (isInk_pretty level v c hc).2

theorem isAscii_pretty (level : Nat) (v : Value) : Text.IsAscii (pretty true level v) :=
  fun c hc => (isInk_pretty level v c hc).1

/-- A carriage return is a line feed, or it is dropped before one. -/
theorem normalizeNewlines_return (s : List Char) :
    Text.normalizeNewlines ('\r' :: s) = '\n' :: Text.normalizeNewlines s ∨
      Text.normalizeNewlines ('\r' :: s) = Text.normalizeNewlines s := by
  rcases s with _ | ⟨c, s⟩
  · exact .inl rfl
  · by_cases hc : c = '\n'
    · right
      have hfeed : '\n' ≠ '\r' := by decide
      rw [hc, normalizeNewlines_cons hfeed]
      rfl
    · left
      rw [Text.normalizeNewlines, if_pos rfl]
      rintro s' - ⟨⟩
      exact hc rfl

/-- A text stays spelled when its line ends are made alike. -/
theorem isSpelled_normalizeNewlines {s : List Char} (h : Text.IsSpelled s) :
    Text.IsSpelled (Text.normalizeNewlines s) := by
  have hstep : ∀ {c : Char} {s : List Char}, c ≠ Text.mark →
      Text.IsSpelled (Text.normalizeNewlines s) →
      Text.IsSpelled (Text.normalizeNewlines (c :: s)) := by
    intro c s hc hs
    by_cases hreturn : c = '\r'
    · rw [hreturn]
      rcases normalizeNewlines_return s with heq | heq <;> rw [heq]
      · exact (Text.isSpelled_cons (by decide)).2 hs
      · exact hs
    · rw [normalizeNewlines_cons hreturn]
      exact (Text.isSpelled_cons hc).2 hs
  induction h using Text.IsSpelled.induction with
  | nil => exact Text.isSpelled_nil
  | cons c s hc hs ih => exact hstep hc ih
  | marked d s hd hs ih =>
    have hreturn : d ≠ '\r' := by
      rintro rfl
      exact absurd (Text.spell_marked hd) (by decide)
    rw [normalizeNewlines_cons (by decide), normalizeNewlines_cons hreturn]
    exact Text.isSpelled_mark.2 ⟨hd, ih⟩

end GrammarSuite.Json
