import GrammarSuite.Json.Reader
import GrammarSuite.Json.Writer
import GrammarSuite.Proofs.Decimal.Patterns

/-!
# Numbers read back from JSON

A number is written as a numeral: a whole part, and then perhaps a fraction and an exponent. What is
read from a numeral depends on these parts alone, as long as the text goes on with something that
could not belong to the numeral. A double is written with its shortest digits, in one of four
shapes that all stand for the same decimal; so it is read back as itself.

## Main definitions

* `Ends`: a text that does not go on a numeral
* `Exponent`, `numeral`: the parts of a numeral
* `Spells`: characters that are a numeral of a number

## Main results

* `readNumber_whole`, `readNumber_numeral`: what is read from a numeral
* `text_spells`: the text of a double is a numeral of its shortest decimal
* `readValue_int`, `readValue_float`: whole numbers and doubles are read back
-/

namespace GrammarSuite.Json

open GrammarSuite.Decimal

/-! ## Numerals -/

/-- A text that does not go on a numeral: it starts with no digit, point or exponent. -/
def Ends (rest : List Char) : Prop :=
  ∀ c ∈ rest.head?, c.isDigit = false ∧ c ≠ '.' ∧ c ≠ 'e' ∧ c ≠ 'E'

theorem ends_nil : Ends [] := by simp [Ends]

theorem ends_cons {c : Char} {rest : List Char} :
    Ends (c :: rest) ↔ c.isDigit = false ∧ c ≠ '.' ∧ c ≠ 'e' ∧ c ≠ 'E' := by
  simp [Ends]

/-- Digits, as they stand in a numeral. -/
def AreDigits (ds : List Char) : Prop := ∀ d ∈ ds, d.isDigit = true

/-- The whole part of a numeral: a zero, or digits that start with another one. -/
def IsWhole (ds : List Char) : Prop :=
  AreDigits ds ∧ (ds = ['0'] ∨ ∃ d rest, ds = d :: rest ∧ d ≠ '0')

/-- The exponent of a numeral: whether it is negative, and its digits. -/
structure Exponent where
  negative : Bool
  digits : List Char

/-- An exponent as it is written. -/
def Exponent.text (e : Exponent) : List Char := 'e' :: (if e.negative then '-' else '+') :: e.digits

/-- An exponent as a number. -/
def Exponent.value (e : Exponent) : Int :=
  if e.negative then -(digitsValue e.digits : Int) else digitsValue e.digits

/-- The sign of a numeral. -/
def sign (negative : Bool) : List Char := if negative then ['-'] else []

/-- A numeral: its whole part, its fraction, which may be empty, and its exponent, if any. -/
def numeral (whole fraction : List Char) (exponent : Option Exponent) : List Char :=
  whole ++ (if fraction = [] then [] else '.' :: fraction) ++ (exponent.map Exponent.text).getD []

theorem digitsValue_eq (ds : List Char) :
    digitsValue ds = Text.ofDigits (ds.map fun d => d.toNat - 48) := by
  rw [digitsValue, Text.ofDigits, List.foldl_map]

/-- A run of digits in front of something else is taken as a whole. -/
theorem takeWhile_digits {ds rest : List Char} (hds : AreDigits ds)
    (hrest : ∀ c ∈ rest.head?, c.isDigit = false) : (ds ++ rest).takeWhile Char.isDigit = ds := by
  rw [List.takeWhile_append_of_pos hds]
  cases rest with
  | nil => simp
  | cons c rest =>
    rw [List.takeWhile_cons_of_neg (by simpa using hrest c (by simp)), List.append_nil]

theorem readFraction_point {ds rest : List Char} (hds : AreDigits ds) (hne : ds ≠ [])
    (hrest : ∀ c ∈ rest.head?, c.isDigit = false) :
    readFraction ('.' :: (ds ++ rest)) = (ds, rest) := by
  have hempty : ds.isEmpty = false := by simpa using hne
  simp only [readFraction, takeWhile_digits hds hrest, hempty, List.drop_left]
  rfl

theorem readFraction_none {rest : List Char} (hrest : ∀ c ∈ rest.head?, c ≠ '.') :
    readFraction rest = ([], rest) := by
  unfold readFraction
  split
  · exact absurd rfl (hrest '.' (by simp))
  · rfl

theorem readExponent_text {e : Exponent} {rest : List Char} (hds : AreDigits e.digits)
    (hne : e.digits ≠ []) (hrest : ∀ c ∈ rest.head?, c.isDigit = false) :
    readExponent (e.text ++ rest) = (some e.value, rest) := by
  obtain ⟨negative, ds⟩ := e
  simp only [Exponent.text, Exponent.value, List.cons_append, readExponent, true_or, if_true]
  have hdigits : (ds ++ rest).takeWhile Char.isDigit = ds := takeWhile_digits hds hrest
  have hsome : ds.isEmpty = false := by simpa using hne
  cases negative
  · simp [hdigits, hsome]
  · simp [hdigits, hsome]

theorem readExponent_none {rest : List Char} (hrest : Ends rest) :
    readExponent rest = (none, rest) := by
  unfold readExponent
  split
  · rename_i c rest
    obtain ⟨-, -, he, hE⟩ := ends_cons.1 hrest
    rw [if_neg (by simp [he, hE])]
  · rfl

/-- What is read from a sign and a whole part, with whatever follows. -/
theorem readNumber_eq (negative : Bool) {whole tail : List Char} (hwhole : IsWhole whole)
    (htail : ∀ c ∈ tail.head?, c.isDigit = false) :
    readNumber (sign negative ++ (whole ++ tail)) =
      match readFraction tail with
      | (fraction, rest) =>
        match readExponent rest with
        | (exponent, rest) =>
          if fraction.isEmpty ∧ exponent.isNone then
            if Text.digitLimit < whole.length then
              .error ⟨.longNumber whole.length, (sign negative ++ (whole ++ tail)).length⟩
            else .ok (.int (if negative then -(digitsValue whole : Int) else digitsValue whole), rest)
          else
            .ok (.float (Text.ofDecimal negative ((whole ++ fraction).map fun d => d.toNat - 48)
              fraction.length (exponent.getD 0)), rest) := by
  obtain ⟨hdigits, hzero | ⟨d, ds, rfl, hd⟩⟩ := hwhole
  · subst hzero
    cases negative <;> simp [readNumber, sign]
  · have htake : (d :: (ds ++ tail)).takeWhile Char.isDigit = d :: ds :=
      takeWhile_digits hdigits htail
    have hminus : d ≠ '-' := by
      rintro rfl
      exact absurd (hdigits '-' (by simp)) (by decide)
    cases negative <;> simp [readNumber, sign, htake, hd, hminus]

/-- A numeral without fraction and exponent is a whole number. -/
theorem readNumber_whole (negative : Bool) {whole rest : List Char} (hwhole : IsWhole whole)
    (hsize : whole.length ≤ Text.digitLimit) (hrest : Ends rest) :
    readNumber (sign negative ++ (whole ++ rest)) =
      .ok (.int (if negative then -(digitsValue whole : Int) else digitsValue whole), rest) := by
  have hpoint : ∀ c ∈ rest.head?, c ≠ '.' := fun c hc => (hrest c hc).2.1
  rw [readNumber_eq negative hwhole fun c hc => (hrest c hc).1, readFraction_none hpoint]
  simp only [readExponent_none hrest]
  rw [if_pos ⟨rfl, rfl⟩, if_neg (not_lt.2 hsize)]

/-- Other numerals are doubles. -/
theorem readNumber_numeral (negative : Bool) {whole fraction rest : List Char}
    {exponent : Option Exponent} (hwhole : IsWhole whole) (hfraction : AreDigits fraction)
    (hexponent : ∀ e ∈ exponent, AreDigits e.digits ∧ e.digits ≠ [])
    (hmore : fraction ≠ [] ∨ exponent ≠ none) (hrest : Ends rest) :
    readNumber (sign negative ++ (numeral whole fraction exponent ++ rest)) =
      .ok (.float (Text.ofDecimal negative ((whole ++ fraction).map fun d => d.toNat - 48)
        fraction.length ((exponent.map Exponent.value).getD 0)), rest) := by
  have hdigit : ∀ c ∈ rest.head?, c.isDigit = false := fun c hc => (hrest c hc).1
  -- What comes after the fraction starts with the letter of the exponent or is the rest.
  let after := (exponent.map Exponent.text).getD [] ++ rest
  have hafter : readExponent after = (exponent.map Exponent.value, rest) := by
    cases exponent with
    | none => exact readExponent_none hrest
    | some e =>
      obtain ⟨hdigits, hne⟩ := hexponent e rfl
      exact readExponent_text hdigits hne hdigit
  have hhead : ∀ c ∈ after.head?, c.isDigit = false ∧ c ≠ '.' := by
    cases exponent with
    | none => exact fun c hc => ⟨hdigit c hc, (hrest c hc).2.1⟩
    | some e =>
      intro c hc
      obtain rfl : 'e' = c := by simpa [after, Exponent.text] using hc
      decide
  by_cases hnone : fraction = []
  · subst hnone
    obtain ⟨e, rfl⟩ := Option.ne_none_iff_exists'.1 (hmore.resolve_left (by simp))
    have hsplit : numeral whole [] (some e) ++ rest = whole ++ after := by simp [numeral, after]
    rw [hsplit, readNumber_eq negative hwhole fun c hc => (hhead c hc).1,
      readFraction_none fun c hc => (hhead c hc).2]
    simp [hafter]
  · have hsplit : numeral whole fraction exponent ++ rest = whole ++ '.' :: (fraction ++ after) := by
      simp [numeral, hnone, after]
    rw [hsplit, readNumber_eq negative hwhole (by simp),
      readFraction_point hfraction hnone fun c hc => (hhead c hc).1]
    simp [hafter, hnone]

/-! ## Whole numbers -/

theorem areDigits_digits (n : Nat) : AreDigits (digits n) := fun _ hd =>
  Nat.isDigit_of_mem_toDigits (by decide) (by decide) hd

theorem digitsValue_digits (n : Nat) : digitsValue (digits n) = n := by
  have hread := @Nat.ofDigitChars_ten_toDigits n
  rw [Nat.ofDigitChars] at hread
  rw [digitsValue, digits]
  conv_rhs => rw [← hread]
  exact congrArg (fun f => List.foldl f 0 (Nat.toDigits 10 n))
    (funext fun _ => funext fun _ => by rw [Nat.mul_comm]; rfl)

/-- The digits of a number that is not zero do not start with a zero. -/
theorem digits_eq_cons {n : Nat} (h : n ≠ 0) : ∃ d rest, digits n = d :: rest ∧ d ≠ '0' := by
  induction n using Nat.strong_induction_on with
  | _ n ih =>
    by_cases hsmall : n < 10
    · refine ⟨n.digitChar, [], Nat.toDigits_of_lt_base hsmall, ?_⟩
      interval_cases n <;> simp_all +decide
    · obtain ⟨d, rest, hdigits, hd⟩ := ih (n / 10) (by omega) (by omega)
      refine ⟨d, rest ++ [(n % 10).digitChar], ?_, hd⟩
      rw [digits, Nat.toDigits_of_base_le (by decide) (by omega)]
      exact congrArg (· ++ [(n % 10).digitChar]) hdigits

theorem isWhole_digits (n : Nat) : IsWhole (digits n) := by
  refine ⟨areDigits_digits n, ?_⟩
  by_cases h : n = 0
  · exact .inl (by rw [h]; rfl)
  · exact .inr (digits_eq_cons h)

theorem toString_int (n : Int) : (toString n).toList = sign (n < 0) ++ digits n.natAbs := by
  cases n with
  | ofNat n => exact String.toList_ofList
  | negSucc n =>
    show ("-" ++ String.ofList (digits (n + 1))).toList = _
    rw [String.toList_append, @String.toList_ofList (digits (n + 1)),
      decide_eq_true (Int.negSucc_lt_zero n)]
    rfl

/-- **A whole number is read back.** -/
theorem readNumber_int {n : Int} {rest : List Char} (h : n.natAbs < Value.unwritable)
    (hrest : Ends rest) : readNumber ((toString n).toList ++ rest) = .ok (.int n, rest) := by
  have hsize : (digits n.natAbs).length ≤ Text.digitLimit :=
    length_digits_le (by decide) h
  rw [toString_int, List.append_assoc, readNumber_whole _ (isWhole_digits _) hsize hrest,
    digitsValue_digits]
  have hvalue : (if decide (n < 0) = true then -(n.natAbs : Int) else n.natAbs) = n := by
    by_cases hn : n < 0
    · rw [if_pos (decide_eq_true hn)]
      omega
    · rw [if_neg (by simpa using hn)]
      omega
  rw [hvalue]

/-! ## Doubles -/

/-- Characters that are a numeral of a number, other than a whole one. -/
def Spells (cs : List Char) (r : ℚ) : Prop :=
  ∃ whole fraction exponent, cs = numeral whole fraction exponent ∧ IsWhole whole ∧
    AreDigits fraction ∧ (∀ e ∈ exponent, AreDigits e.digits ∧ e.digits ≠ []) ∧
    (fraction ≠ [] ∨ exponent ≠ none) ∧
    (digitsValue (whole ++ fraction) : ℚ) *
      10 ^ ((exponent.map Exponent.value).getD 0 - fraction.length) = r

theorem digitsValue_append_zeros (ds : List Char) (k : Nat) :
    digitsValue (ds ++ List.replicate k '0') = digitsValue ds * 10 ^ k := by
  have hzeros : Text.ofDigits (List.replicate k 0) = 0 := by
    induction k with
    | zero => rfl
    | succ k ih => rw [List.replicate_succ, Text.ofDigits_cons, ih, Nat.zero_mul]
  rw [digitsValue_eq, digitsValue_eq, List.map_append, Text.ofDigits_append, List.map_replicate,
    List.length_replicate]
  exact congrArg (_ + ·) hzeros

theorem digitsValue_zeros_append (ds : List Char) (k : Nat) :
    digitsValue (List.replicate k '0' ++ ds) = digitsValue ds := by
  induction k with
  | zero => rfl
  | succ k ih => rw [List.replicate_succ, List.cons_append, ← ih]; rfl

theorem areDigits_zeros (k : Nat) : AreDigits (List.replicate k '0') := fun d hd => by
  rw [List.eq_of_mem_replicate hd]
  decide

theorem AreDigits.append {ds es : List Char} (hds : AreDigits ds) (hes : AreDigits es) :
    AreDigits (ds ++ es) := fun d hd => (List.mem_append.1 hd).elim (hds d) (hes d)

section

variable {d : Char} {ds : List Char} {point : Int}

/-- A decimal whose digits all stand behind the point. -/
theorem spells_behind (hdigits : AreDigits (d :: ds)) (hpoint : point ≤ 0) :
    Spells (positional (d :: ds) point) (digitsValue (d :: ds) * 10 ^ (point - (ds.length + 1))) := by
  rw [positional, if_pos hpoint]
  let zeros := List.replicate (-point).toNat '0'
  refine ⟨['0'], zeros ++ d :: ds, none, by simp [numeral, zeros], ⟨areDigits_zeros 1, .inl rfl⟩,
    (areDigits_zeros _).append hdigits, by simp, .inl (by simp), ?_⟩
  have hvalue : digitsValue (['0'] ++ (zeros ++ d :: ds)) = digitsValue (d :: ds) :=
    (digitsValue_zeros_append _ 1).trans (digitsValue_zeros_append _ _)
  have hplaces : (0 : Int) - (zeros ++ d :: ds).length = point - (ds.length + 1) := by
    simp only [List.length_append, List.length_cons, zeros, List.length_replicate]
    omega
  rw [hvalue]
  exact congrArg ((digitsValue (d :: ds) : ℚ) * 10 ^ ·) hplaces

/-- A decimal whose digits all stand in front of the point. -/
theorem spells_before (hd : d ≠ '0') (hdigits : AreDigits (d :: ds)) (hpoint : ¬ point ≤ 0)
    (hlength : (d :: ds).length ≤ point.toNat) :
    Spells (positional (d :: ds) point) (digitsValue (d :: ds) * 10 ^ (point - (ds.length + 1))) := by
  rw [positional, if_neg hpoint, if_pos hlength]
  let zeros := List.replicate (point.toNat - (d :: ds).length) '0'
  refine ⟨d :: ds ++ zeros, ['0'], none, by simp [numeral, zeros],
    ⟨hdigits.append (areDigits_zeros _), .inr ⟨d, ds ++ zeros, rfl, hd⟩⟩, areDigits_zeros 1,
    by simp, .inl (by simp), ?_⟩
  have hvalue : digitsValue (d :: ds ++ zeros ++ ['0']) =
      digitsValue (d :: ds) * 10 ^ (point.toNat - ds.length) := by
    have hzeros : zeros ++ ['0'] = List.replicate (point.toNat - ds.length) '0' := by
      rw [List.length_cons] at hlength
      rw [← List.replicate_succ', List.length_cons]
      congr 1
      omega
    rw [List.append_assoc, hzeros, digitsValue_append_zeros]
  have hexponent : ((point.toNat - ds.length : Nat) : Int) + (0 - (['0'] : List Char).length) =
      point - (ds.length + 1) := by
    simp only [List.length_cons, List.length_nil] at hlength ⊢
    omega
  rw [hvalue, Nat.cast_mul, Nat.cast_pow, Nat.cast_ofNat, mul_assoc, ← zpow_natCast,
    ← zpow_add₀ (by norm_num)]
  exact congrArg ((digitsValue (d :: ds) : ℚ) * 10 ^ ·) hexponent

/-- A decimal with the point between its digits. -/
theorem spells_between (hd : d ≠ '0') (hdigits : AreDigits (d :: ds)) (hpoint : ¬ point ≤ 0)
    (hlength : ¬ (d :: ds).length ≤ point.toNat) :
    Spells (positional (d :: ds) point) (digitsValue (d :: ds) * 10 ^ (point - (ds.length + 1))) := by
  rw [positional, if_neg hpoint, if_neg hlength]
  obtain ⟨k, hk⟩ : ∃ k, point.toNat = k + 1 := ⟨point.toNat - 1, by omega⟩
  rw [hk, List.length_cons] at hlength
  rw [hk]
  have hsplit : ds.take k ++ ds.drop k = ds := List.take_append_drop k ds
  have hfraction : ds.drop k ≠ [] := by simpa using hlength
  refine ⟨d :: ds.take k, ds.drop k, none, by simp [numeral, hfraction], ⟨?_, ?_⟩, ?_, by simp,
    .inl hfraction, ?_⟩
  · exact fun c hc => hdigits c ((List.take_subset (k + 1) (d :: ds)) hc)
  · exact .inr ⟨d, ds.take k, rfl, hd⟩
  · exact fun c hc => hdigits c (List.mem_cons_of_mem _ (List.mem_of_mem_drop hc))
  · rw [List.cons_append, hsplit]
    have hplaces : (0 : Int) - (ds.drop k).length = point - (ds.length + 1) := by
      rw [List.length_drop]
      omega
    exact congrArg ((digitsValue (d :: ds) : ℚ) * 10 ^ ·) hplaces

/-- A decimal in positional writing. -/
theorem spells_positional (hd : d ≠ '0') (hdigits : AreDigits (d :: ds)) :
    Spells (positional (d :: ds) point) (digitsValue (d :: ds) * 10 ^ (point - (ds.length + 1))) := by
  by_cases hpoint : point ≤ 0
  · exact spells_behind hdigits hpoint
  · by_cases hlength : (d :: ds).length ≤ point.toNat
    · exact spells_before hd hdigits hpoint hlength
    · exact spells_between hd hdigits hpoint hlength

/-- A decimal with an exponent. -/
theorem spells_scientific {l : Layout} {exponent : Int} (hd : d ≠ '0')
    (hdigits : AreDigits (d :: ds)) :
    Spells (l.scientific (d :: ds) exponent)
      (digitsValue (d :: ds) * 10 ^ (exponent - ds.length)) := by
  let size := digits exponent.natAbs
  let padded := List.replicate (l.exponentDigits - size.length) '0' ++ size
  have hpadded : digitsValue padded = exponent.natAbs :=
    (digitsValue_zeros_append _ _).trans (digitsValue_digits _)
  refine ⟨[d], ds, some ⟨exponent < 0, padded⟩, ?_, ⟨?_, .inr ⟨d, [], rfl, hd⟩⟩, ?_, ?_, .inr (by simp),
    ?_⟩
  · cases ds <;> simp [Layout.scientific, numeral, Exponent.text, padded, size]
  · exact fun c hc => hdigits c (by simp_all)
  · exact fun c hc => hdigits c (List.mem_cons_of_mem _ hc)
  · rintro e ⟨⟩
    refine ⟨(areDigits_zeros _).append (areDigits_digits _), ?_⟩
    have hne : size ≠ [] := List.ne_nil_of_length_pos Nat.length_toDigits_pos
    simp [padded, hne]
  · have hexponent : Exponent.value ⟨exponent < 0, padded⟩ = exponent := by
      simp only [Exponent.value, hpadded, decide_eq_true_eq]
      split <;> omega
    exact congrArg (fun n : Int => (digitsValue (d :: ds) : ℚ) * 10 ^ (n - ds.length)) hexponent

end

/-- Digits are those without the zeros at the end, and these zeros. -/
theorem exists_zeros (ds : List Char) :
    ∃ k, ds = withoutTrailingZeros ds ++ List.replicate k '0' := by
  have hzeros : ∀ c ∈ ds.reverse.takeWhile (· == '0'), c = '0' := fun c hc => by
    simpa using List.mem_takeWhile_imp hc
  refine ⟨(ds.reverse.takeWhile (· == '0')).length, ?_⟩
  conv_lhs => rw [← List.reverse_reverse ds, ← @List.takeWhile_append_dropWhile _ (· == '0') ds.reverse,
    List.reverse_append, List.eq_replicate_of_mem hzeros, List.reverse_replicate]
  rfl

/-- The text of a double that is not zero is its sign and a numeral of its shortest decimal. -/
theorem text_spells {x : Float} {m : Nat} {q : Int} (h : Magnitude.ofFloat x = .finite m q)
    (hm : m ≠ 0) :
    ∃ cs, (Decimal.text numberLayout x).toList = sign (isNegative x) ++ cs ∧
      Spells cs ((shortest m q).1 * 10 ^ (shortest m q).2) := by
  have hmq : IsMagnitude m q := (bits_of_finite h).2.2 hm
  -- The decimal is not zero, since its number is in the interval of one that is not.
  have hne : (shortest m q).1 ≠ 0 := by
    intro hzero
    have hsmall := (Text.bounds_of_holds hmq (shortest_holds hmq)).1
    rw [hzero, Nat.cast_zero, zero_mul] at hsmall
    exact absurd hsmall (not_lt.2 (ten_zpow_pos _).le)
  rcases hshortest : shortest m q with ⟨n, g⟩
  rw [hshortest] at hne
  obtain ⟨d, all, hall, hd⟩ := digits_eq_cons hne
  obtain ⟨k, hk⟩ := exists_zeros (digits n)
  obtain ⟨ds, hds⟩ : ∃ ds, withoutTrailingZeros (digits n) = d :: ds := by
    rcases hds : withoutTrailingZeros (digits n) with _ | ⟨c, ds⟩
    · rw [hds, hall, List.nil_append] at hk
      exact absurd (List.eq_of_mem_replicate (hk ▸ List.mem_cons_self)) hd
    · rw [hds, hall] at hk
      exact ⟨ds, by rw [(List.cons.inj hk).1]⟩
  rw [hds] at hk
  have hdigits : AreDigits (d :: ds) := fun c hc =>
    areDigits_digits n c (by rw [hk]; exact List.mem_append_left _ hc)
  have hvalue : (n : ℚ) * 10 ^ g =
      digitsValue (d :: ds) * 10 ^ (g + (digits n).length - (ds.length + 1)) := by
    have hn := digitsValue_digits n
    rw [hk, digitsValue_append_zeros] at hn
    have hlength : (g + (digits n).length - (ds.length + 1) : Int) = k + g := by
      rw [hk, List.length_append, List.length_cons, List.length_replicate]
      omega
    rw [hlength, zpow_add₀ (by norm_num), zpow_natCast, ← mul_assoc]
    conv_lhs => rw [← hn]
    push_cast
    rfl
  refine ⟨if numberLayout.least ≤ g + (digits n).length - 1 ∧
      g + (digits n).length - 1 < numberLayout.bound then positional (d :: ds) (g + (digits n).length)
    else numberLayout.scientific (d :: ds) (g + (digits n).length - 1), ?_, ?_⟩
  · simp only [Decimal.text, h, hshortest, hds, if_neg hm, String.toList_append, String.toList_ofList]
    cases isNegative x <;> rfl
  · rw [hvalue]
    split
    · exact spells_positional hd hdigits
    · have hscientific := @spells_scientific d ds numberLayout (g + (digits n).length - 1) hd hdigits
      rwa [sub_sub, Int.add_comm 1] at hscientific

/-- A numeral in the interval of a double is read as this double. -/
theorem readNumber_spells {x : Float} {m : Nat} {q : Int} {cs rest : List Char} {r : ℚ}
    (h : Magnitude.ofFloat x = .finite m q) (hm : m ≠ 0) (hcs : Spells cs r)
    (hr : Interval.Holds m q r) (hrest : Ends rest) :
    readNumber (sign (isNegative x) ++ (cs ++ rest)) = .ok (.float x, rest) := by
  obtain ⟨whole, fraction, exponent, rfl, hwhole, hfraction, hexponent, hmore, rfl⟩ := hcs
  rw [readNumber_numeral _ hwhole hfraction hexponent hmore hrest]
  have hsmall : ∀ n ∈ (whole ++ fraction).map fun d => d.toNat - 48, n < 10 := by
    intro n hn
    obtain ⟨d, hd, rfl⟩ := List.mem_map.1 hn
    obtain ⟨-, hhigh⟩ : 48 ≤ d.toNat ∧ d.toNat ≤ 57 :=
      Char.isDigit_iff_toNat.1 (hwhole.1.append hfraction d hd)
    omega
  rw [digitsValue_eq] at hr
  rw [Text.ofDecimal_eq h hm hsmall hr]

/-! ## Numbers among values -/

/-- The names of the constants. -/
def constantNames : List String := constants.map Prod.fst

theorem constantNames_eq :
    constantNames = ["null", "true", "false", "NaN", "Infinity", "-Infinity"] := rfl

theorem readConstant?_eq_none {s : List Char} (h : ∀ name ∈ constantNames, ¬ name.toList <+: s) :
    readConstant? s = none := by
  rw [readConstant?, List.findSome?_eq_none_iff]
  rintro ⟨name, v⟩ hmem
  have hname := h name (List.mem_map_of_mem hmem)
  exact if_neg (by simpa using hname)

/-- A constant is read back, if none of those before it is a start of the text. -/
theorem readConstant?_eq_some {i : Nat} {name : String} {v : Value} {rest : List Char}
    (h : constants = constants.take i ++ (name, v) :: constants.drop (i + 1))
    (hbefore : ∀ other ∈ constantNames.take i, ¬ other.toList <+: name.toList ++ rest) :
    readConstant? (name.toList ++ rest) = some (v, rest) := by
  rw [readConstant?, h, List.findSome?_append]
  have hnone : (constants.take i).findSome? (fun entry =>
      if entry.1.toList.isPrefixOf (name.toList ++ rest)
        then some (entry.2, (name.toList ++ rest).drop entry.1.length) else none) = none := by
    rw [List.findSome?_eq_none_iff]
    rintro ⟨other, w⟩ hmem
    have hother : other ∈ constantNames.take i := by
      rw [constantNames, ← List.map_take]
      exact List.mem_map_of_mem hmem
    exact if_neg (by simpa using hbefore other hother)
  rw [hnone, Option.none_or, List.findSome?_cons]
  have hfront : name.toList.isPrefixOf (name.toList ++ rest) = true := by simp
  have hdrop : (name.toList ++ rest).drop name.length = rest := by
    rw [← String.length_toList, List.drop_left]
  simp only [hfront, if_true, hdrop]

/-- A value that is no string, list or object is a constant or a number. -/
theorem readValue_of_head (fuel levels : Nat) {s : List Char}
    (hs : ∀ c ∈ s.head?, c ≠ '"' ∧ c ≠ '[' ∧ c ≠ '\x7b') :
    readValue (fuel + 1) levels s = (readConstant? s).elim (readNumber s) .ok := by
  rw [readValue]
  · cases readConstant? s <;> rfl
  all_goals
    rintro rest rfl
    simp at hs

/-- A value that starts with a digit, perhaps behind a sign, is a number. -/
theorem readValue_number (fuel levels : Nat) (negative : Bool) {d : Char} {tail : List Char}
    (hd : d.isDigit = true) :
    readValue (fuel + 1) levels (sign negative ++ d :: tail) =
      readNumber (sign negative ++ d :: tail) := by
  have hne : ∀ c : Char, c.isDigit = false → c ≠ d := by
    rintro c hc rfl
    rw [hc] at hd
    cases hd
  have hnone : readConstant? (sign negative ++ d :: tail) = none := by
    apply readConstant?_eq_none
    rw [constantNames_eq]
    cases negative
    · simp [sign, hne 'n', hne 't', hne 'f', hne 'N', hne 'I', hne '-']
    · simp [sign, hne 'I']
  rw [readValue_of_head, hnone, Option.elim_none]
  intro c hc
  cases negative
  · obtain rfl : d = c := by simpa [sign] using hc
    exact ⟨(hne '"' rfl).symm, (hne '[' rfl).symm, (hne '\x7b' rfl).symm⟩
  · obtain rfl : '-' = c := by simpa [sign] using hc
    decide

/-- **A whole number is read back as a value.** -/
theorem readValue_int (fuel levels : Nat) {n : Int} {rest : List Char}
    (h : n.natAbs < Value.unwritable) (hrest : Ends rest) :
    readValue (fuel + 1) levels ((toString n).toList ++ rest) = .ok (.int n, rest) := by
  have hread := readNumber_int h hrest
  obtain ⟨d, ds, hds⟩ := List.exists_cons_of_ne_nil
    (List.ne_nil_of_length_pos (@Nat.length_toDigits_pos 10 n.natAbs))
  have hd : d.isDigit = true := areDigits_digits n.natAbs d (by rw [digits, hds]; simp)
  rw [toString_int, digits, hds, List.append_assoc, List.cons_append] at hread ⊢
  rw [readValue_number fuel levels _ hd, hread]

theorem readValue_constant (fuel levels : Nat) {s rest : List Char} {v : Value}
    (h : readConstant? s = some (v, rest)) (hs : ∀ c ∈ s.head?, c ≠ '"' ∧ c ≠ '[' ∧ c ≠ '\x7b') :
    readValue (fuel + 1) levels s = .ok (v, rest) := by
  rw [readValue_of_head fuel levels hs, h, Option.elim_some]

theorem Spells.eq_cons {cs : List Char} {r : ℚ} (h : Spells cs r) :
    ∃ d tail, cs = d :: tail ∧ d.isDigit = true := by
  obtain ⟨whole, fraction, exponent, rfl, ⟨hdigits, hwhole⟩, -⟩ := h
  rcases hwhole with rfl | ⟨d, rest, rfl, -⟩
  · exact ⟨'0', _, rfl, rfl⟩
  · exact ⟨d, _, rfl, hdigits d (by simp)⟩

/-- **A double is read back as a value.** -/
theorem readValue_float (fuel levels : Nat) (x : Float) {rest : List Char} (hrest : Ends rest) :
    readValue (fuel + 1) levels ((Decimal.text numberLayout x).toList ++ rest) =
      .ok (.float x, rest) := by
  rcases h : Magnitude.ofFloat x with ⟨m, q⟩ | _ | _
  · by_cases hm : m = 0
    · subst hm
      have htext : (Decimal.text numberLayout x).toList =
          sign (isNegative x) ++ numeral ['0'] ['0'] none := by
        simp only [Decimal.text, h, if_true, String.toList_append]
        cases isNegative x <;> rfl
      have hzero : AreDigits ['0'] := areDigits_zeros 1
      have hread : readNumber (sign (isNegative x) ++ (numeral ['0'] ['0'] none ++ rest)) =
          .ok (.float x, rest) := by
        rw [readNumber_numeral _ ⟨hzero, .inl rfl⟩ hzero (by simp) (.inl (by simp)) hrest]
        exact congrArg (fun y => Except.ok (Value.float y, rest)) (nearest_zero h)
      rw [htext, List.append_assoc]
      exact (readValue_number fuel levels _ (by decide)).trans hread
    · obtain ⟨cs, htext, hcs⟩ := text_spells h hm
      have hread := readNumber_spells h hm hcs (shortest_holds ((bits_of_finite h).2.2 hm)) hrest
      obtain ⟨d, tail, rfl, hd⟩ := hcs.eq_cons
      rw [htext, List.append_assoc, List.cons_append, readValue_number fuel levels _ hd]
      exact hread
  · have htext : (Decimal.text numberLayout x).toList =
        (if isNegative x then "-Infinity" else "Infinity").toList := by
      simp only [Decimal.text, h]
      cases isNegative x <;> rfl
    have hx := eq_infinite h
    rw [htext]
    cases hsign : isNegative x with
    | true =>
      rw [hsign] at hx
      apply readValue_constant
      · rw [← hx]
        exact @readConstant?_eq_some 5 _ _ _ rfl (by simp [constantNames_eq])
      · simp
    | false =>
      rw [hsign] at hx
      apply readValue_constant
      · rw [← hx]
        exact @readConstant?_eq_some 4 _ _ _ rfl (by simp [constantNames_eq])
      · simp
  · have htext : (Decimal.text numberLayout x).toList = "NaN".toList := by
      simp only [Decimal.text, h]
      rfl
    rw [htext, ← eq_undefined h]
    apply readValue_constant
    · exact @readConstant?_eq_some 3 _ _ _ rfl (by simp [constantNames_eq])
    · simp

end GrammarSuite.Json
