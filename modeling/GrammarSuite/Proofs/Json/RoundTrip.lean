import GrammarSuite.Proofs.Json.Numbers
import GrammarSuite.Proofs.Text.Spelling

/-!
# JSON that is written and read again

A value that is written in ASCII is read back from its text: whole numbers and doubles as they are,
texts with their pairs of halves joined. It need only be one that the reader can give, with whole
numbers that are not too long and lists and objects that are not nested too deeply.

## Main definitions

* `Escapes`: characters between quotes that are read as a code point
* `Value.reread`: a value as it is read when it has been written
* `Value.Fits`: a value that the reader can give
* `IsReadBack`: a value is read from its text, whatever comes behind it

## Main results

* `escapes_escapedPoint`, `readString_escaped`: code points and texts are read back
* `isReadBack`, `read_pretty`: values are read back
-/

namespace GrammarSuite.Json

open Text (points spell isHalf pointCount isFirst isSecond joined joinPairs joinPairs_cons_cons)

/-! ## Escapes -/

theorem hexDigit?_digitChar {n : Nat} (h : n < 16) : hexDigit? n.digitChar = some n := by
  interval_cases n <;> decide

theorem hex_one {n : Nat} (h : n < 16) : Text.hex 1 n = [n.digitChar] := by
  rw [Text.hex, Nat.toDigits_of_lt_base h]
  rfl

/-- The last digit in base sixteen. -/
theorem hex_succ {width : Nat} (hwidth : 0 < width) (n : Nat) :
    Text.hex (width + 1) n = Text.hex width (n / 16) ++ [(n % 16).digitChar] := by
  by_cases h : n < 16
  · have hzero : List.replicate (width - 1) '0' ++ ['0'] = List.replicate width '0' := by
      rw [← List.replicate_succ', Nat.sub_add_cancel hwidth]
    rw [Text.hex, Text.hex, Nat.toDigits_of_lt_base h, Nat.div_eq_of_lt h, Nat.mod_eq_of_lt h]
    exact congrArg (· ++ [n.digitChar]) hzero.symm
  · rw [Text.hex, Text.hex, Nat.toDigits_of_base_le (by decide) (by omega)]
    simp [List.append_assoc]

/-- A number below the number of UTF-16 units has four digits in base sixteen. -/
theorem hex_four {n : Nat} (h : n < 0x10000) :
    Text.hex 4 n = [(n / 16 / 16 / 16).digitChar, (n / 16 / 16 % 16).digitChar,
      (n / 16 % 16).digitChar, (n % 16).digitChar] := by
  rw [hex_succ (by decide), hex_succ (by decide), hex_succ (by decide), hex_one (by omega)]
  rfl

theorem hexUnit?_hex {n : Nat} (h : n < 0x10000) : hexUnit? (Text.hex 4 n) = some n := by
  rw [hex_four h, hexUnit?, hexDigit?_digitChar (by omega), hexDigit?_digitChar (by omega),
    hexDigit?_digitChar (by omega), hexDigit?_digitChar (by omega)]
  refine congrArg some ?_
  show ((n / 16 / 16 / 16 * 16 + n / 16 / 16 % 16) * 16 + n / 16 % 16) * 16 + n % 16 = n
  omega

variable {n m start : Nat} {rest : List Char}

theorem length_hex (h : n < 0x10000) : (Text.hex 4 n).length = 4 := by
  rw [hex_four h]
  rfl

/-- A unit that follows the first half of a pair. -/
theorem lowUnit?_unitEscape (h : n < 0x10000) (hrest : rest ≠ []) :
    lowUnit? (unitEscape n ++ rest) = some (.ok (n, rest)) := by
  have hlength := List.length_pos_of_ne_nil hrest
  have hlong : ¬ (Text.hex 4 n ++ rest).length ≤ 4 := by
    rw [List.length_append, length_hex h]
    omega
  rw [unitEscape, List.cons_append, List.cons_append, lowUnit?, if_neg hlong,
    List.take_left' (length_hex h), List.drop_left' (length_hex h), hexUnit?_hex h]

/-- A unit that is no first half, or that no second half follows, stands for itself. -/
theorem readEscape_unit (h : n < 0x10000) (hrest : rest ≠ [])
    (halone : isFirst n = true → lowUnit? rest = none ∨
      ∃ m after, lowUnit? rest = some (.ok (m, after)) ∧ isSecond m = false) :
    readEscape start ('u' :: (Text.hex 4 n ++ rest)) = .ok (n, rest) := by
  have hlength := List.length_pos_of_ne_nil hrest
  have hlong : ¬ (Text.hex 4 n ++ rest).length ≤ 4 := by
    rw [List.length_append, length_hex h]
    omega
  rw [readEscape, if_neg hlong, List.take_left' (length_hex h), List.drop_left' (length_hex h),
    hexUnit?_hex h]
  dsimp only
  split
  · rename_i hfirst
    rcases halone (by simpa [isFirst] using hfirst) with hnone | ⟨m, after, hsome, hm⟩
    · rw [hnone]
    · rw [hsome]
      dsimp only
      rw [if_neg (by simpa [isSecond] using hm)]
  · rfl

/-- Two halves are read as their pair. -/
theorem readEscape_pair (hn : isFirst n = true) (hm : isSecond m = true) (hrest : rest ≠ []) :
    readEscape start ('u' :: (Text.hex 4 n ++ (unitEscape m ++ rest))) = .ok (joined n m, rest) := by
  obtain ⟨hlow, hhigh⟩ : 0xD800 ≤ n ∧ n < 0xDC00 := by simpa [isFirst] using hn
  obtain ⟨hlow', hhigh'⟩ : 0xDC00 ≤ m ∧ m < 0xE000 := by simpa [isSecond] using hm
  have h : n < 0x10000 := by omega
  have hlong : ¬ (Text.hex 4 n ++ (unitEscape m ++ rest)).length ≤ 4 := by
    rw [List.length_append, length_hex h]
    simp [unitEscape]
  rw [readEscape, if_neg hlong, List.take_left' (length_hex h), List.drop_left' (length_hex h),
    hexUnit?_hex h]
  dsimp only
  rw [if_pos ⟨hlow, hhigh⟩, lowUnit?_unitEscape (by omega) hrest]
  dsimp only
  rw [if_pos ⟨hlow', hhigh'⟩]
  rfl

/-! ## Strings -/

/-- Characters between quotes that are read as a code point. -/
inductive Escapes : Nat → List Char → Prop
  | short {letter e : Char} (hletter : letter ≠ 'u') (h : simpleEscape? letter = some e) :
    Escapes e.toNat ['\\', letter]
  | unit {n : Nat} (h : n < 0x10000) : Escapes n (unitEscape n)
  | pair {first second : Nat} (hfirst : isFirst first = true) (hsecond : isSecond second = true) :
    Escapes (joined first second) (unitEscape first ++ unitEscape second)
  | plain {c : Char} (hquote : c ≠ '"') (hescape : c ≠ '\\') (hcontrol : 0x20 ≤ c.toNat)
    (hmark : c ≠ Text.mark) : Escapes c.toNat [c]

/-- A code point is written by characters that are read as it. -/
theorem escapes_escapedPoint (h : n < pointCount) : Escapes n (escapedPoint true n) := by
  unfold escapedPoint
  split
  · -- Each of the short escapes is read as the code point that it was made of.
    rename_i letter hletter
    have hshort : letter ≠ 'u' ∧ ∃ e, simpleEscape? letter = some e ∧ e.toNat = n := by
      unfold shortEscape? at hletter
      split_ifs at hletter <;> cases hletter <;> subst_vars <;> exact ⟨by decide, _, rfl, rfl⟩
    obtain ⟨hu, e, he, rfl⟩ := hshort
    exact .short hu he
  · rename_i hshort
    split
    · unfold unitEscapes
      split
      · rename_i hsmall
        exact .unit hsmall
      · rename_i hlarge
        rw [pointCount] at h
        have hjoined : joined (0xD800 + (n - 0x10000) / 0x400) (0xDC00 + (n - 0x10000) % 0x400) = n := by
          unfold joined
          omega
        conv => arg 1; rw [← hjoined]
        exact .pair (by simp [isFirst]; omega) (by simp [isSecond]; omega)
    · rename_i hplain
      obtain ⟨hlow, hhigh⟩ : 0x20 ≤ n ∧ n < 0x7F := by simpa using hplain
      have hvalid : n.isValidChar := .inl (by omega)
      have hnat := Text.toNat_ofNat hvalid
      have hne : ∀ c : Char, n ≠ c.toNat → Char.ofNat n ≠ c := by
        rintro c hc rfl
        exact hc hnat.symm
      have hmark : Char.ofNat n ≠ Text.mark := hne _ (by rw [Text.mark_toNat]; omega)
      rw [← hnat, Text.spell_toNat hmark]
      refine .plain (hne _ ?_) (hne _ ?_) (by omega) hmark
      · rintro rfl
        simp [shortEscape?] at hshort
      · rintro rfl
        simp [shortEscape?] at hshort

theorem Escapes.ne_nil {cs : List Char} (h : Escapes n cs) : cs ≠ [] := by
  cases h <;> simp [unitEscape]

/-- One code point is read. -/
theorem Escapes.readString {cs done : List Char} {fuel : Nat} (h : Escapes n cs) (hrest : rest ≠ [])
    (halone : isFirst n = true → lowUnit? rest = none ∨
      ∃ m after, lowUnit? rest = some (.ok (m, after)) ∧ isSecond m = false) :
    readString start (fuel + 1) done (cs ++ rest) =
      Json.readString start fuel ((spell n).reverse ++ done) rest := by
  cases h with
  | @short letter e hletter h =>
    have hread : readEscape start (letter :: rest) = .ok (e.toNat, rest) := by
      unfold readEscape
      split
      · simp_all
      · simp_all
      · simp_all
    simp [Json.readString, hread]
  | unit h =>
    have hread := @readEscape_unit _ start _ h hrest halone
    simp [Json.readString, unitEscape, hread]
  | pair hfirst hsecond =>
    have hread := @readEscape_pair _ _ start _ hfirst hsecond hrest
    rw [List.append_assoc]
    simp [Json.readString, unitEscape] at hread ⊢
    rw [hread]
  | @plain c hquote hescape hcontrol hmark =>
    simp [Json.readString, hquote, hescape, Text.spell_toNat hmark, Nat.not_lt.2 hcontrol]

/-- What follows the first half of a pair is no second half, if it is not written as one. -/
theorem Escapes.lowUnit? {cs : List Char} (h : Escapes n cs) (hn : isSecond n = false)
    (hrest : rest ≠ []) : lowUnit? (cs ++ rest) = none ∨
      ∃ m after, Json.lowUnit? (cs ++ rest) = some (.ok (m, after)) ∧ isSecond m = false := by
  cases h with
  | @short letter e hletter h =>
    refine .inl ?_
    unfold Json.lowUnit?
    split <;> simp_all
  | unit h => exact .inr ⟨_, _, lowUnit?_unitEscape h hrest, hn⟩
  | @pair first second hfirst hsecond =>
    obtain ⟨hlow, hhigh⟩ : 0xD800 ≤ first ∧ first < 0xDC00 := by simpa [isFirst] using hfirst
    rw [List.append_assoc]
    exact .inr ⟨_, _, lowUnit?_unitEscape (by omega) (by simp [unitEscape]), by simp [isSecond]; omega⟩
  | @plain c hquote hescape hcontrol hmark =>
    refine .inl ?_
    unfold Json.lowUnit?
    split <;> simp_all

/-- A half is written as its unit. -/
theorem escapedPoint_half (h : 0xD800 ≤ n ∧ n < 0xE000) : escapedPoint true n = unitEscape n := by
  have hshort : shortEscape? n = none := by
    unfold shortEscape?
    split_ifs <;> first | omega | rfl
  rw [escapedPoint, hshort]
  have hlarge : (decide (n < 0x20) || true && decide (0x7F ≤ n)) = true := by simp; omega
  dsimp only
  rw [if_pos hlarge, unitEscapes, if_pos (by omega)]

theorem isFirst_joined (first second : Nat) : isFirst (joined first second) = false := by
  have := Text.le_joined first second
  simp [isFirst]
  omega

/-- Code points between quotes are read with their pairs joined. -/
theorem readString_flatMap {ns : List Nat} (h : ∀ n ∈ ns, n < pointCount) {fuel : Nat}
    (hfuel : ns.length < fuel) (done : List Char) :
    readString start fuel done (ns.flatMap (escapedPoint true) ++ '"' :: rest) =
      .ok (String.ofList (done.reverse ++ (joinPairs ns).flatMap spell), rest) := by
  obtain ⟨fuel, rfl⟩ : ∃ k, fuel = k + 1 := ⟨fuel - 1, by omega⟩
  -- The induction goes along the pairs; each step reads one code point, or two that are a pair.
  induction ns using GrammarSuite.Text.joinPairs.induct generalizing fuel done with
  | case1 => simp [readString, joinPairs]
  | case2 n =>
    obtain ⟨fuel, rfl⟩ : ∃ k, fuel = k + 1 := ⟨fuel - 1, by simp at hfuel; omega⟩
    have hescapes := escapes_escapedPoint (h n (by simp))
    rw [List.flatMap_singleton, hescapes.readString (by simp) fun _ => .inl (by simp [lowUnit?])]
    simp [readString, joinPairs]
  | case3 n m ns hpair ih =>
    obtain ⟨fuel, rfl⟩ : ∃ k, fuel = k + 1 := ⟨fuel - 1, by simp at hfuel; omega⟩
    obtain ⟨hn, hm⟩ := Bool.and_eq_true_iff.1 hpair
    have hfirst : 0xD800 ≤ n ∧ n < 0xDC00 := by simpa [isFirst] using hn
    have hsecond : 0xDC00 ≤ m ∧ m < 0xE000 := by simpa [isSecond] using hm
    have hread : readString start (fuel + 1 + 1) done (unitEscape n ++ unitEscape m ++
        (ns.flatMap (escapedPoint true) ++ '"' :: rest)) =
        readString start (fuel + 1) ((spell (joined n m)).reverse ++ done)
          (ns.flatMap (escapedPoint true) ++ '"' :: rest) :=
      (Escapes.pair hn hm).readString (by simp) fun hjoined => by
        rw [isFirst_joined] at hjoined
        cases hjoined
    rw [List.flatMap_cons, List.flatMap_cons, escapedPoint_half (by omega),
      escapedPoint_half (by omega), ← List.append_assoc, List.append_assoc, hread,
      ih (fun k hk => h k (by simp [hk])) _ _ (by simp at hfuel; omega), joinPairs_cons_cons,
      if_pos hpair]
    simp
  | case4 n m ns hpair ih =>
    obtain ⟨fuel, rfl⟩ : ∃ k, fuel = k + 1 := ⟨fuel - 1, by simp at hfuel; omega⟩
    have hescapes := escapes_escapedPoint (h n (by simp))
    have hnext := escapes_escapedPoint (h m (by simp))
    have halone : isFirst n = true → lowUnit? ((m :: ns).flatMap (escapedPoint true) ++ '"' :: rest) = none ∨
        ∃ k after, lowUnit? ((m :: ns).flatMap (escapedPoint true) ++ '"' :: rest) =
          some (.ok (k, after)) ∧ isSecond k = false := by
      intro hn
      have hm : isSecond m = false := by simpa [hn] using hpair
      rw [List.flatMap_cons, List.append_assoc]
      exact hnext.lowUnit? hm (by simp)
    rw [List.flatMap_cons, List.append_assoc, hescapes.readString (by simp) halone,
      ih (fun k hk => h k (List.mem_cons_of_mem _ hk)) _ _ (by simp at hfuel ⊢; omega),
      joinPairs_cons_cons, if_neg hpair]
    simp

theorem length_le_flatMap {ns : List Nat} (h : ∀ n ∈ ns, n < pointCount) :
    ns.length ≤ (ns.flatMap (escapedPoint true)).length := by
  induction ns with
  | nil => simp
  | cons n ns ih =>
    obtain ⟨hn, hns⟩ := List.forall_mem_cons.1 h
    have hpos := List.length_pos_of_ne_nil (escapes_escapedPoint hn).ne_nil
    rw [List.flatMap_cons, List.length_append, List.length_cons]
    have := ih hns
    omega

theorem escaped_toList (s : String) :
    (escaped true s).toList = '"' :: ((points s).flatMap (escapedPoint true) ++ ['"']) := by
  rw [escaped, String.toList_ofList, List.cons_append]

/-- **A text is read back with its pairs joined.** -/
theorem readString_escaped (start : Nat) (s : String) (rest : List Char) {fuel : Nat}
    (hfuel : (escaped true s).toList.length ≤ fuel) :
    readString start fuel [] ((points s).flatMap (escapedPoint true) ++ '"' :: rest) =
      .ok (Text.rejoined s, rest) := by
  have hpoints : ∀ n ∈ points s, n < pointCount := fun _ hn => Text.lt_of_mem_pointsOf hn
  have hlength := length_le_flatMap hpoints
  rw [escaped_toList, List.length_cons, List.length_append] at hfuel
  exact readString_flatMap hpoints (by rw [List.length_singleton] at hfuel; omega) []

/-! ## Values -/

namespace Value

mutual

/-- A value as it is read when it has been written: the pairs in its texts are joined, and of fields
that then have the same name the last one counts. -/
def reread : Value → Value
  | text s => text (Text.rejoined s)
  | list items => list (rereadItems items)
  | object fields => object (Table.ofPairs (rereadFields fields))
  | null => null
  | bool b => bool b
  | int n => int n
  | float x => float x

/-- The items of a list as they are read. -/
def rereadItems : List Value → List Value
  | [] => []
  | v :: vs => v.reread :: rereadItems vs

/-- The fields of an object as they are read. -/
def rereadFields : List (String × Value) → List (String × Value)
  | [] => []
  | (k, v) :: rest => (Text.rejoined k, v.reread) :: rereadFields rest

end

/-- A value that the reader can give: its whole numbers can be written, its lists and objects are
nested in a number of levels, and the names in an object are spelled and differ. -/
inductive Fits : Nat → Value → Prop
  | null {levels : Nat} : Fits levels null
  | bool {levels : Nat} (b : Bool) : Fits levels (bool b)
  | int {levels : Nat} {n : Int} (h : n.natAbs < unwritable) : Fits levels (int n)
  | float {levels : Nat} (x : Float) : Fits levels (float x)
  | text {levels : Nat} (s : String) : Fits levels (text s)
  | list {levels : Nat} {items : List Value} (h : ∀ v ∈ items, Fits levels v) :
    Fits (levels + 1) (list items)
  | object {levels : Nat} {fields : List (String × Value)} (h : ∀ f ∈ fields, Fits levels f.2)
    (hnames : ∀ f ∈ fields, Text.IsSpelled f.1.toList) (hdistinct : (Table.keys fields).Nodup) :
    Fits (levels + 1) (object fields)

end Value

/-- A character that no value starts with. -/
def IsBetween (c : Char) : Prop := isGap c = true ∨ c = ',' ∨ c = ']' ∨ c = '\x7d' ∨ c = '\uFEFF'

theorem readNumber_eq_error {s : List Char} (h : ∀ c ∈ s.head?, c.isDigit = false ∧ c ≠ '-') :
    readNumber s = .error ⟨.expectedValue, s.length⟩ := by
  cases s with
  | nil => simp [readNumber]
  | cons c s =>
    obtain ⟨hdigit, hminus⟩ := h c rfl
    have hzero : c ≠ '0' := by
      rintro rfl
      cases hdigit
    simp [readNumber, hdigit, hminus, hzero]

/-- A value that is read does not start with a character that stands between values. -/
theorem head_of_readValue {fuel levels : Nat} {s : List Char} {r : Value × List Char}
    (h : readValue fuel levels s = .ok r) : ∃ c rest, s = c :: rest ∧ ¬ IsBetween c := by
  by_contra hnone
  have hhead : ∀ c ∈ s.head?, IsBetween c := by
    intro c hc
    obtain ⟨rest, rfl⟩ := List.head?_eq_some_iff.1 hc
    by_contra hc
    exact hnone ⟨c, rest, rfl, hc⟩
  have hplain : ∀ c ∈ s.head?, c.isDigit = false ∧ c ∉ ['-', '"', '[', '\x7b', 'n', 't', 'f', 'N', 'I'] := by
    intro c hc
    have hbetween := hhead c hc
    simp only [IsBetween, isGap, Bool.or_eq_true, beq_iff_eq] at hbetween
    rcases hbetween with ((((rfl | rfl) | rfl) | rfl) | rfl | rfl | rfl | rfl) <;> decide
  have hconstant : readConstant? s = none := by
    apply readConstant?_eq_none
    rw [constantNames_eq]
    cases s with
    | nil => simp
    | cons c s =>
      have hne := (hplain c rfl).2
      simp only [List.mem_cons, not_or] at hne
      obtain ⟨hminus, -, -, -, hn, ht, hf, hN, hI, -⟩ := hne
      simp [Ne.symm hminus, Ne.symm hn, Ne.symm ht, Ne.symm hf, Ne.symm hN, Ne.symm hI]
  have hnumber : readNumber s = .error ⟨.expectedValue, s.length⟩ :=
    readNumber_eq_error fun c hc => ⟨(hplain c hc).1, List.ne_of_not_mem_cons (hplain c hc).2⟩
  cases fuel with
  | zero => cases h
  | succ fuel =>
    have hopening : ∀ c ∈ s.head?, c ≠ '"' ∧ c ≠ '[' ∧ c ≠ '\x7b' := by
      intro c hc
      have hne := (hplain c hc).2
      simp only [List.mem_cons, not_or] at hne
      exact ⟨hne.2.1, hne.2.2.1, hne.2.2.2.1⟩
    rw [readValue_of_head fuel levels hopening, hconstant, Option.elim_none, hnumber] at h
    cases h

theorem skipGap_append {gap s : List Char} (h : ∀ c ∈ gap, isGap c = true) :
    skipGap (gap ++ s) = skipGap s := List.dropWhile_append_of_pos h

theorem skipGap_newline (level : Nat) (s : List Char) :
    skipGap ((newline level).toList ++ s) = skipGap s := by
  apply skipGap_append
  intro c hc
  rw [newline, String.toList_ofList] at hc
  rcases List.mem_cons.1 hc with rfl | hc
  · decide
  · rw [List.eq_of_mem_replicate hc]
    decide

theorem skipGap_of_head {c : Char} {s : List Char} (h : ¬ IsBetween c) : skipGap (c :: s) = c :: s :=
  List.dropWhile_cons_of_neg fun hgap => h (.inl hgap)

/-- What is read as a value does not start with a gap. -/
theorem skipGap_of_readValue {fuel levels : Nat} {s : List Char} {r : Value × List Char}
    (h : readValue fuel levels s = .ok r) : skipGap s = s := by
  obtain ⟨c, rest, rfl, hc⟩ := head_of_readValue h
  exact skipGap_of_head hc

/-! ### Lists -/

/-- A value that is written is read back, whatever comes behind it. -/
def IsReadBack (levels : Nat) (v : Value) : Prop :=
  ∀ {level fuel : Nat} {rest : List Char}, (pretty true level v).toList.length ≤ fuel →
    Ends rest →
    readValue fuel levels ((pretty true level v).toList ++ rest) = .ok (v.reread, rest)

/-- The end of a list or of an object, on a line of its own. -/
def closing (level : Nat) (bracket : Char) (rest : List Char) : List Char :=
  (newline level).toList ++ bracket :: rest

theorem ends_closing (level : Nat) (bracket : Char) (rest : List Char) :
    Ends (closing level bracket rest) := by
  rw [closing, newline, String.toList_ofList, List.cons_append, ends_cons]
  decide

theorem skipGap_closing {level : Nat} {bracket : Char} {rest : List Char}
    (h : isGap bracket = false) : skipGap (closing level bracket rest) = bracket :: rest := by
  rw [closing, skipGap_newline]
  exact List.dropWhile_cons_of_neg (by simp [h])

theorem length_newline_pos (level : Nat) : 0 < (newline level).toList.length := by
  rw [newline, String.toList_ofList]
  simp

/-- One item of a list is read. -/
theorem readItems_item {levels level fuel : Nat} {v : Value} {tail : List Char} (done : List Value)
    (hv : IsReadBack levels v)
    (hfuel : (newline level ++ pretty true level v).toList.length ≤ fuel + 1) (htail : Ends tail) :
    readItems (fuel + 1) levels done
        (skipGap ((newline level ++ pretty true level v).toList ++ tail)) =
      match skipGap tail with
      | ']' :: after => .ok (.list (v.reread :: done).reverse, after)
      | ',' :: after => readItems fuel levels (v.reread :: done) (skipGap after)
      | s => .error ⟨.expectedComma, s.length⟩ := by
  have hpos := length_newline_pos level
  rw [String.toList_append, List.length_append] at hfuel
  have hread : readValue fuel levels ((pretty true level v).toList ++ tail) = .ok (v.reread, tail) :=
    hv (by omega) htail
  rw [String.toList_append, List.append_assoc, skipGap_newline, skipGap_of_readValue hread, readItems]
  exact hread ▸ rfl

/-- The items of a list are read up to its end. -/
theorem readItems_pretty {levels level outer : Nat} {vs : List Value} {rest : List Char}
    (hne : vs ≠ []) (h : ∀ v ∈ vs, IsReadBack levels v) {fuel : Nat} (done : List Value)
    (hfuel : (",".intercalate (prettyItems true level vs)).toList.length ≤ fuel) :
    readItems fuel levels done (skipGap
      ((",".intercalate (prettyItems true level vs)).toList ++ closing outer ']' rest)) =
      .ok (.list (done.reverse ++ Value.rereadItems vs), rest) := by
  induction vs generalizing fuel done with
  | nil => exact absurd rfl hne
  | cons v vs ih =>
    obtain ⟨hv, hvs⟩ := List.forall_mem_cons.1 h
    have hpos := length_newline_pos level
    cases vs with
    | nil =>
      simp only [prettyItems_cons, prettyItems_nil, String.intercalate_singleton] at hfuel ⊢
      rw [String.toList_append, List.length_append] at hfuel
      obtain ⟨fuel, rfl⟩ : ∃ k, fuel = k + 1 := ⟨fuel - 1, by omega⟩
      rw [readItems_item done hv (by rwa [String.toList_append, List.length_append])
        (ends_closing outer ']' rest), skipGap_closing (by decide)]
      simp [Value.rereadItems]
    | cons w ws =>
      have hsplit : ",".intercalate (prettyItems true level (v :: w :: ws)) =
          newline level ++ pretty true level v ++ "," ++
            ",".intercalate (prettyItems true level (w :: ws)) := by
        simp only [prettyItems_cons, String.intercalate_cons_cons]
      rw [hsplit] at hfuel ⊢
      simp only [String.toList_append, List.length_append] at hfuel
      obtain ⟨fuel, rfl⟩ : ∃ k, fuel = k + 1 := ⟨fuel - 1, by omega⟩
      rw [String.toList_append, String.toList_append, List.append_assoc, List.append_assoc,
        readItems_item done hv (by rw [String.toList_append, List.length_append]; omega)]
      · have hcomma : skipGap (",".toList ++ ((",".intercalate (prettyItems true level (w :: ws))).toList ++
            closing outer ']' rest)) = ',' :: ((",".intercalate (prettyItems true level (w :: ws))).toList ++
            closing outer ']' rest) := rfl
        rw [hcomma]
        show readItems fuel levels (v.reread :: done) _ = _
        rw [ih (by simp) hvs _ (by omega)]
        simp [Value.rereadItems]
      · exact ends_cons.2 (by decide)

/-! ### Objects -/

/-- The name of a field, with what leads to its value. -/
def heading (level : Nat) (name : String) : String := newline level ++ escaped true name ++ ": "

/-- One field of an object is read. -/
theorem readFields_field {levels level fuel : Nat} {name : String} {v : Value} {tail : List Char}
    (done : List (String × Value)) (hv : IsReadBack levels v)
    (hfuel : (heading level name ++ pretty true level v).toList.length ≤ fuel + 1)
    (htail : Ends tail) :
    readFields (fuel + 1) levels done
        (skipGap ((heading level name ++ pretty true level v).toList ++ tail)) =
      match skipGap tail with
      | '\x7d' :: after =>
        .ok (.object (Table.ofPairs ((Text.rejoined name, v.reread) :: done).reverse), after)
      | ',' :: after => readFields fuel levels ((Text.rejoined name, v.reread) :: done) (skipGap after)
      | s => .error ⟨.expectedComma, s.length⟩ := by
  have hpos := length_newline_pos level
  rw [String.toList_append, List.length_append, heading, String.toList_append, String.toList_append,
    List.length_append, List.length_append] at hfuel
  have hread : readValue fuel levels ((pretty true level v).toList ++ tail) = .ok (v.reread, tail) :=
    hv (by omega) htail
  -- The text from the quote in front of the name on.
  let value := (pretty true level v).toList ++ tail
  let quoted := '"' :: ((points name).flatMap (escapedPoint true) ++ '"' :: (": ".toList ++ value))
  have hsplit : skipGap ((heading level name ++ pretty true level v).toList ++ tail) = quoted := by
    simp only [heading, String.toList_append, List.append_assoc, skipGap_newline, escaped_toList,
      List.cons_append, List.nil_append]
    exact skipGap_of_head (by simp [IsBetween, isGap])
  have hname : readString quoted.length quoted.length [] ((points name).flatMap (escapedPoint true) ++
      '"' :: (": ".toList ++ value)) = .ok (Text.rejoined name, ": ".toList ++ value) :=
    readString_escaped _ name _ (by simp [quoted, escaped_toList])
  have hcolon : skipGap (": ".toList ++ value) = ':' :: ' ' :: value := rfl
  have hblank : skipGap (' ' :: value) = value := by
    rw [skipGap, List.dropWhile_cons_of_pos rfl]
    exact skipGap_of_readValue hread
  rw [hsplit, readFields, hname]
  simp only [hcolon, hblank]
  exact hread ▸ rfl

/-- The fields of an object are read up to its end. -/
theorem readFields_pretty {levels level outer : Nat} {fields : List (String × Value)}
    {rest : List Char} (hne : fields ≠ []) (h : ∀ f ∈ fields, IsReadBack levels f.2) {fuel : Nat}
    (done : List (String × Value))
    (hfuel : (",".intercalate (prettyFields true level fields)).toList.length ≤ fuel) :
    readFields fuel levels done (skipGap
      ((",".intercalate (prettyFields true level fields)).toList ++ closing outer '\x7d' rest)) =
      .ok (.object (Table.ofPairs (done.reverse ++ Value.rereadFields fields)), rest) := by
  induction fields generalizing fuel done with
  | nil => exact absurd rfl hne
  | cons f fields ih =>
    obtain ⟨name, v⟩ := f
    obtain ⟨hv, hfields⟩ := List.forall_mem_cons.1 h
    replace hv : IsReadBack levels v := hv
    have hpos : 0 < (heading level name).toList.length := by simp [heading]
    cases fields with
    | nil =>
      have hsingle : ",".intercalate (prettyFields true level [(name, v)]) =
          heading level name ++ pretty true level v := by
        simp only [prettyFields_cons, prettyFields_nil, String.intercalate_singleton]
        rfl
      rw [hsingle] at hfuel ⊢
      rw [String.toList_append, List.length_append] at hfuel
      obtain ⟨fuel, rfl⟩ : ∃ k, fuel = k + 1 := ⟨fuel - 1, by omega⟩
      rw [readFields_field done hv (by rwa [String.toList_append, List.length_append])
        (ends_closing outer '\x7d' rest), skipGap_closing (by decide)]
      simp [Value.rereadFields]
    | cons g gs =>
      have hsplit : ",".intercalate (prettyFields true level ((name, v) :: g :: gs)) =
          heading level name ++ pretty true level v ++ "," ++
            ",".intercalate (prettyFields true level (g :: gs)) := by
        obtain ⟨name', w⟩ := g
        simp only [prettyFields_cons, String.intercalate_cons_cons]
        rfl
      rw [hsplit] at hfuel ⊢
      simp only [String.toList_append, List.length_append] at hfuel
      obtain ⟨fuel, rfl⟩ : ∃ k, fuel = k + 1 := ⟨fuel - 1, by omega⟩
      rw [String.toList_append, String.toList_append, List.append_assoc, List.append_assoc,
        readFields_field done hv (by rw [String.toList_append, List.length_append]; omega)]
      · have hcomma : skipGap (",".toList ++
            ((",".intercalate (prettyFields true level (g :: gs))).toList ++
              closing outer '\x7d' rest)) =
            ',' :: ((",".intercalate (prettyFields true level (g :: gs))).toList ++
              closing outer '\x7d' rest) := rfl
        rw [hcomma]
        show readFields fuel levels ((Text.rejoined name, v.reread) :: done) _ = _
        rw [ih (by simp) hfields _ (by omega)]
        simp [Value.rereadFields]
      · exact ends_cons.2 (by decide)

/-! ### All values -/

/-- What a list starts with. -/
theorem head_of_readItems {fuel levels : Nat} {done : List Value} {s : List Char}
    {r : Value × List Char} (h : readItems fuel levels done s = .ok r) :
    ∃ c rest, s = c :: rest ∧ ¬ IsBetween c := by
  cases fuel with
  | zero => cases h
  | succ fuel =>
    rcases hread : readValue fuel levels s with e | r'
    · rw [readItems, hread] at h
      cases h
    · exact head_of_readValue hread

/-- A string is read from its quote on. -/
theorem readValue_string {fuel levels : Nat} {s : List Char} {t : String} {rest : List Char}
    (h : readString (s.length + 1) (s.length + 1) [] s = .ok (t, rest)) :
    readValue (fuel + 1) levels ('"' :: s) = .ok (.text t, rest) := by
  rw [readValue, List.length_cons, h]

/-- A list that has items is read from them on. -/
theorem readValue_list {fuel levels : Nat} {s : List Char} {r : Value × List Char}
    (h : readItems fuel levels [] (skipGap s) = .ok r) :
    readValue (fuel + 1) (levels + 1) ('[' :: s) = .ok r := by
  obtain ⟨c, rest, hs, hc⟩ := head_of_readItems h
  have hne : c ≠ ']' := fun he => hc (.inr (.inr (.inl he)))
  rw [hs] at h
  simp [readValue, hs, hne, h]

/-- What the fields of an object start with. -/
theorem head_of_readFields {fuel levels : Nat} {done : List (String × Value)} {s : List Char}
    {r : Value × List Char} (h : readFields fuel levels done s = .ok r) : ∃ rest, s = '"' :: rest := by
  cases fuel with
  | zero => cases h
  | succ fuel =>
    by_contra hnone
    rw [readFields] at h
    · cases h
    · exact fun rest hs => hnone ⟨rest, hs⟩

/-- An object that has fields is read from them on. -/
theorem readValue_object {fuel levels : Nat} {s : List Char} {r : Value × List Char}
    (h : readFields fuel levels [] (skipGap s) = .ok r) :
    readValue (fuel + 1) (levels + 1) ('\x7b' :: s) = .ok r := by
  obtain ⟨rest, hs⟩ := head_of_readFields h
  rw [hs] at h
  simp [readValue, hs, h]

/-- A value is read back if it is with one unit of fuel for its first character. -/
theorem isReadBack_of_succ {levels : Nat} {v : Value}
    (hpos : ∀ level, 0 < (pretty true level v).toList.length)
    (h : ∀ {level fuel : Nat} {rest : List Char},
      (pretty true level v).toList.length ≤ fuel + 1 → Ends rest →
        readValue (fuel + 1) levels ((pretty true level v).toList ++ rest) = .ok (v.reread, rest)) :
    IsReadBack levels v := by
  intro level fuel rest hfuel hrest
  have hlevel := hpos level
  obtain ⟨fuel, rfl⟩ : ∃ k, fuel = k + 1 := ⟨fuel - 1, by omega⟩
  exact h hfuel hrest

/-- A constant is read back. -/
theorem isReadBack_constant {levels i : Nat} {v : Value} {name : String}
    (htext : ∀ level, pretty true level v = name) (hname : name ≠ "")
    (hreread : v.reread = v)
    (h : constants = constants.take i ++ (name, v) :: constants.drop (i + 1))
    (hbefore : ∀ other ∈ constantNames.take i, ∀ rest, ¬ other.toList <+: name.toList ++ rest)
    (hhead : ∀ c ∈ name.toList.head?, c ≠ '"' ∧ c ≠ '[' ∧ c ≠ '\x7b') : IsReadBack levels v := by
  refine isReadBack_of_succ (fun level => ?_) fun {level fuel rest} _ _ => ?_
  · rw [htext]
    exact List.length_pos_of_ne_nil (mt String.toList_eq_nil_iff.1 hname)
  rw [htext, hreread]
  apply readValue_constant _ _ (readConstant?_eq_some h fun other ho => hbefore other ho rest)
  obtain ⟨c, cs, hc⟩ := List.exists_cons_of_ne_nil (mt String.toList_eq_nil_iff.1 hname)
  rw [hc] at hhead ⊢
  exact hhead

theorem isReadBack_bool (levels : Nat) (b : Bool) : IsReadBack levels (.bool b) := by
  cases b with
  | true =>
    exact @isReadBack_constant _ 1 _ "true" (fun _ => rfl) (by decide) rfl rfl
      (by simp [constantNames_eq]) (by simp)
  | false =>
    exact @isReadBack_constant _ 2 _ "false" (fun _ => rfl) (by decide) rfl rfl
      (by simp [constantNames_eq]) (by simp)

theorem isReadBack_int (levels : Nat) {n : Int} (h : n.natAbs < Value.unwritable) :
    IsReadBack levels (.int n) := by
  refine isReadBack_of_succ (fun level => ?_) fun {level fuel rest} _ hrest => ?_
  · rw [pretty_int, toString_int, List.length_append]
    exact Nat.add_pos_right _ Nat.length_toDigits_pos
  · rw [pretty_int]
    exact readValue_int fuel levels h hrest

theorem isReadBack_float (levels : Nat) (x : Float) : IsReadBack levels (.float x) := by
  refine isReadBack_of_succ (fun level => ?_) fun {level fuel rest} _ hrest => ?_
  · obtain ⟨c, tail, htext, -⟩ := head_of_readValue (readValue_float 0 0 x ends_nil)
    rw [List.append_nil] at htext
    rw [pretty_float, htext]
    exact Nat.zero_lt_succ _
  · rw [pretty_float]
    exact readValue_float fuel levels x hrest

theorem isReadBack_text (levels : Nat) (s : String) : IsReadBack levels (.text s) := by
  refine isReadBack_of_succ (fun level => ?_) fun {level fuel rest} _ _ => ?_
  · rw [pretty_text, escaped_toList]
    exact Nat.zero_lt_succ _
  rw [pretty_text, escaped_toList, List.cons_append, List.append_assoc, List.singleton_append]
  refine readValue_string (readString_escaped _ s rest ?_)
  simp [escaped_toList]

/-- The text of a list holds the brackets besides its items. -/
theorem length_pretty_list (level : Nat) (items : List Value) :
    (",".intercalate (prettyItems true (level + 1) items)).toList.length + 2 ≤
      (pretty true level (.list items)).toList.length := by
  cases items with
  | nil => simp [pretty_list_nil]
  | cons v vs =>
    rw [pretty_list_cons]
    simp only [String.toList_append, List.length_append]
    have hopen : "[".toList.length = 1 := rfl
    have hclose : "]".toList.length = 1 := rfl
    omega

/-- A list is read back if its items are one level further down. -/
theorem isReadBack_list {levels : Nat} {items : List Value}
    (h : ∀ v ∈ items, IsReadBack levels v) : IsReadBack (levels + 1) (.list items) := by
  refine isReadBack_of_succ (fun level => ?_) fun {level fuel rest} hfuel _ => ?_
  · exact (Nat.succ_pos _).trans_le (length_pretty_list level items)
  have hlength := (length_pretty_list level items).trans hfuel
  cases items with
  | nil =>
    have hchars : (pretty true level (.list [])).toList ++ rest = '[' :: ']' :: rest := by
      simp [pretty_list_nil]
    rw [hchars]
    rfl
  | cons v vs =>
    have hchars : (pretty true level (.list (v :: vs))).toList ++ rest =
        '[' :: ((",".intercalate (prettyItems true (level + 1) (v :: vs))).toList ++
          closing level ']' rest) := by
      rw [pretty_list_cons]
      simp [closing]
    rw [hchars]
    apply readValue_list
    exact readItems_pretty (by simp) h [] (by omega)

/-- The text of an object holds the brackets besides its fields. -/
theorem length_pretty_object (level : Nat) (fields : List (String × Value)) :
    (",".intercalate (prettyFields true (level + 1) fields)).toList.length + 2 ≤
      (pretty true level (.object fields)).toList.length := by
  cases fields with
  | nil => simp [pretty_object_nil]
  | cons f fs =>
    rw [pretty_object_cons]
    simp only [String.toList_append, List.length_append]
    have hopen : "\x7b".toList.length = 1 := rfl
    have hclose : "\x7d".toList.length = 1 := rfl
    omega

/-- An object is read back if the values of its fields are one level further down. -/
theorem isReadBack_object {levels : Nat} {fields : List (String × Value)}
    (h : ∀ f ∈ fields, IsReadBack levels f.2) : IsReadBack (levels + 1) (.object fields) := by
  refine isReadBack_of_succ (fun level => ?_) fun {level fuel rest} hfuel _ => ?_
  · exact (Nat.succ_pos _).trans_le (length_pretty_object level fields)
  have hlength := (length_pretty_object level fields).trans hfuel
  cases fields with
  | nil =>
    have hchars : (pretty true level (.object [])).toList ++ rest = '\x7b' :: '\x7d' :: rest := by
      simp [pretty_object_nil]
    rw [hchars]
    rfl
  | cons f fs =>
    have hchars : (pretty true level (.object (f :: fs))).toList ++ rest =
        '\x7b' :: ((",".intercalate (prettyFields true (level + 1) (f :: fs))).toList ++
          closing level '\x7d' rest) := by
      rw [pretty_object_cons]
      simp [closing]
    rw [hchars]
    apply readValue_object
    exact readFields_pretty (by simp) h [] (by omega)

/-- **A value is read back from its text.** -/
theorem isReadBack {levels : Nat} {v : Value} (h : v.Fits levels) : IsReadBack levels v := by
  induction h with
  | null =>
    exact @isReadBack_constant _ 0 _ "null" (fun _ => rfl) (by decide) rfl rfl (by simp) (by simp)
  | bool b => exact isReadBack_bool _ b
  | int h => exact isReadBack_int _ h
  | float x => exact isReadBack_float _ x
  | text s => exact isReadBack_text _ s
  | list h ih => exact isReadBack_list ih
  | object h hnames hdistinct ih => exact isReadBack_object ih

/-- **The text of a value is read as this value, with the pairs in its texts joined.** -/
theorem read_pretty {v : Value} (h : v.Fits levelLimit) : read (pretty true 0 v) = .ok v.reread := by
  have hread : readValue (2 * (pretty true 0 v).toList.length + 2) levelLimit
      (pretty true 0 v).toList = .ok (v.reread, []) := by
    have hback := @isReadBack _ _ h 0 (2 * (pretty true 0 v).toList.length + 2) [] (by omega) ends_nil
    rwa [List.append_nil] at hback
  have hgap := skipGap_of_readValue hread
  obtain ⟨c, rest, hs, hc⟩ := head_of_readValue hread
  have hmark : c ≠ '\uFEFF' := fun he => hc (.inr (.inr (.inr (.inr he))))
  have hresult : read (pretty true 0 v) = Except.mapError (Stop.locate (pretty true 0 v).toList)
      (.ok v.reread) := by
    unfold read
    dsimp only
    split
    · rename_i hfirst
      exact absurd (List.cons.inj (hs.symm.trans hfirst)).1 hmark
    · rw [hgap, hread]
      rfl
  rw [hresult]
  rfl

end GrammarSuite.Json
