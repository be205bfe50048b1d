import GrammarSuite.Proofs.Action
import GrammarSuite.Proofs.Json.RoundTrip
import GrammarSuite.Proofs.Table

/-!
# What the reader gives

What is read from a text is a value that could be written: its whole numbers have at most as many
digits as the reader takes, its lists and objects are nested in at most as many levels, and the
names in an object differ. If the text is spelled, so are the names.

Between names and texts the reader only takes characters that stand for themselves, so that it never
stops inside the spelling of a code point.

## Main definitions

* `Peels`: a text that is the rest of another one, behind characters that stand for themselves
* `Gives`: every value that is read with some fuel fits

## Main results

* `fits_of_readNumber`, `isSpelled_of_readString`: numbers and texts
* `gives`, `fits_of_read`: values
-/

namespace GrammarSuite.Json

open Text (IsPlain IsSpelled pointCount spell)

/-! ## Plain characters -/

/-- A text that is the rest of another one, behind characters that stand for themselves. -/
def Peels (s rest : List Char) : Prop := ∃ front, s = front ++ rest ∧ ∀ c ∈ front, IsPlain c

theorem Peels.refl (s : List Char) : Peels s s := ⟨[], rfl, by simp⟩

theorem Peels.trans {s t u : List Char} (h : Peels s t) (h' : Peels t u) : Peels s u := by
  obtain ⟨front, rfl, hfront⟩ := h
  obtain ⟨next, rfl, hnext⟩ := h'
  refine ⟨front ++ next, (List.append_assoc ..).symm, fun c hc => ?_⟩
  exact (List.mem_append.1 hc).elim (hfront c) (hnext c)

theorem peels_cons {c : Char} {s : List Char} (h : IsPlain c) : Peels (c :: s) s :=
  ⟨[c], rfl, by simpa using h⟩

theorem Peels.isSpelled {s rest : List Char} (h : Peels s rest) (hs : IsSpelled s) :
    IsSpelled rest := by
  obtain ⟨front, rfl, hfront⟩ := h
  induction front with
  | nil => exact hs
  | cons c front ih =>
    obtain ⟨hc, hfront⟩ := List.forall_mem_cons.1 hfront
    exact ih hfront ((Text.isSpelled_cons hc.ne_mark).1 hs)

theorem peels_dropWhile {p : Char → Bool} (h : ∀ c, p c = true → IsPlain c) (s : List Char) :
    Peels s (s.dropWhile p) :=
  ⟨s.takeWhile p, (List.takeWhile_append_dropWhile).symm, fun c hc => h c (List.mem_takeWhile_imp hc)⟩

theorem peels_skipGap (s : List Char) : Peels s (skipGap s) := by
  refine peels_dropWhile (fun c hc => ?_) s
  simp only [isGap, Bool.or_eq_true, beq_iff_eq] at hc
  rcases hc with ((rfl | rfl) | rfl) | rfl <;> decide

theorem isPlain_of_isDigit {c : Char} (h : c.isDigit = true) : IsPlain c := by
  obtain ⟨-, hhigh⟩ : 48 ≤ c.toNat ∧ c.toNat ≤ 57 := Char.isDigit_iff_toNat.1 h
  exact Nat.lt_of_le_of_lt hhigh (by decide)

theorem peels_drop_digits (s : List Char) : Peels s (s.drop (s.takeWhile Char.isDigit).length) := by
  have hsplit : s.drop (s.takeWhile Char.isDigit).length = s.dropWhile Char.isDigit := by
    calc s.drop (s.takeWhile Char.isDigit).length
        = (s.takeWhile Char.isDigit ++ s.dropWhile Char.isDigit).drop
            (s.takeWhile Char.isDigit).length := by rw [List.takeWhile_append_dropWhile]
      _ = s.dropWhile Char.isDigit := List.drop_left
  rw [hsplit]
  exact peels_dropWhile (fun _ => isPlain_of_isDigit) s

/-! ## Numbers and constants -/

theorem peels_readFraction (s : List Char) : Peels s (readFraction s).2 := by
  unfold readFraction
  split
  · dsimp only
    split
    · exact .refl _
    · exact (peels_cons (by decide)).trans (peels_drop_digits _)
  · exact .refl _

theorem peels_readExponent (s : List Char) : Peels s (readExponent s).2 := by
  unfold readExponent
  split
  · rename_i c rest
    split
    · rename_i hletter
      have hc : IsPlain c := by rcases hletter with rfl | rfl <;> decide
      split
      rename_i negative digits hsign
      have hrest : Peels rest digits := by
        split at hsign <;> cases hsign
        · exact peels_cons (by decide)
        · exact peels_cons (by decide)
        · exact .refl _
      dsimp only
      split
      · exact .refl _
      · exact (peels_cons hc).trans (hrest.trans (peels_drop_digits digits))
    · exact .refl _
  · exact .refl _

theorem tenPow_le_tenPow {k n : Nat} (h : k ≤ n) : Decimal.tenPow k ≤ Decimal.tenPow n :=
  Nat.pow_le_pow_right (by decide) h

theorem digitsValue_lt {ds : List Char} (h : AreDigits ds) :
    digitsValue ds < Decimal.tenPow ds.length := by
  have hlength : (ds.map fun d => d.toNat - 48).length = ds.length := List.length_map _
  rw [digitsValue_eq, ← hlength]
  apply Text.ofDigits_lt
  intro n hn
  obtain ⟨d, hd, rfl⟩ := List.mem_map.1 hn
  obtain ⟨-, hhigh⟩ : 48 ≤ d.toNat ∧ d.toNat ≤ 57 := Char.isDigit_iff_toNat.1 (h d hd)
  omega

/-- What the figures of a number are read as fits, whichever of the two forms its whole part has. -/
theorem fits_of_figures {s rest after whole fraction : List Char} {exponent : Option Int} {v : Value}
    (negative : Bool) (hdigits : AreDigits whole) (hpeels : Peels s after) (levels : Nat)
    (h : (if whole.isEmpty then Except.error (Stop.mk .expectedValue s.length)
      else if fraction.isEmpty ∧ exponent.isNone then
        if Text.digitLimit < whole.length then .error ⟨.longNumber whole.length, s.length⟩
        else .ok (.int (if negative then -(digitsValue whole : Int) else digitsValue whole), after)
      else
        .ok (.float (Text.ofDecimal negative ((whole ++ fraction).map fun d => d.toNat - 48)
          fraction.length (exponent.getD 0)), after)) = .ok (v, rest)) :
    v.Fits levels ∧ Peels s rest := by
  split at h
  · cases h
  · split at h
    · split at h
      · cases h
      · rename_i hlimit
        obtain ⟨rfl, rfl⟩ := Prod.mk.inj (Except.ok.inj h)
        refine ⟨.int ?_, hpeels⟩
        have habs : (if negative = true then -(digitsValue whole : Int) else digitsValue whole).natAbs =
            digitsValue whole := by split <;> simp
        rw [habs]
        exact (digitsValue_lt hdigits).trans_le (tenPow_le_tenPow (Nat.not_lt.1 hlimit))
    · obtain ⟨rfl, rfl⟩ := Prod.mk.inj (Except.ok.inj h)
      exact ⟨.float _, hpeels⟩

/-- A number that is read fits, and characters that stand for themselves were taken. -/
theorem fits_of_readNumber {s rest : List Char} {v : Value} (h : readNumber s = .ok (v, rest))
    (levels : Nat) : v.Fits levels ∧ Peels s rest := by
  unfold readNumber at h
  split at h
  rename_i negative body hsign
  have hs : Peels s body := by
    split at hsign <;> cases hsign
    · exact peels_cons (by decide)
    · exact .refl _
  have hpeels : ∀ whole : List Char, Peels body (body.drop whole.length) →
      Peels s (readExponent (readFraction (body.drop whole.length)).2).2 := fun whole hdrop =>
    hs.trans (hdrop.trans ((peels_readFraction _).trans (peels_readExponent _)))
  by_cases hzero : ∃ tail, body = '0' :: tail
  · obtain ⟨tail, rfl⟩ := hzero
    exact fits_of_figures negative (areDigits_zeros 1) (hpeels ['0'] (peels_cons (by decide)))
      levels h
  · dsimp only at h
    split at h
    · exact absurd ⟨_, rfl⟩ hzero
    · exact fits_of_figures negative (fun d hd => List.mem_takeWhile_imp hd)
        (hpeels _ (peels_drop_digits body)) levels h

/-- A constant that is read fits, and characters that stand for themselves were taken. -/
theorem fits_of_readConstant? {s rest : List Char} {v : Value}
    (h : readConstant? s = some (v, rest)) (levels : Nat) : v.Fits levels ∧ Peels s rest := by
  obtain ⟨⟨name, w⟩, hmem, hname⟩ := List.exists_of_findSome?_eq_some h
  have hplain : ∀ c ∈ name.toList, IsPlain c := by
    have hnames : ∀ name ∈ constantNames, ∀ c ∈ name.toList, IsPlain c := by
      rw [constantNames_eq]
      simp [IsPlain]
    exact hnames name (List.mem_map_of_mem hmem)
  have hfits : w.Fits levels := by
    simp only [constants, List.mem_cons, Prod.mk.injEq, List.not_mem_nil, or_false] at hmem
    rcases hmem with ⟨-, rfl⟩ | ⟨-, rfl⟩ | ⟨-, rfl⟩ | ⟨-, rfl⟩ | ⟨-, rfl⟩ | ⟨-, rfl⟩
    · exact .null
    · exact .bool _
    · exact .bool _
    · exact .float _
    · exact .float _
    · exact .float _
  dsimp only at hname
  split at hname
  · rename_i hprefix
    obtain ⟨rfl, rfl⟩ := Prod.mk.inj (Option.some.inj hname)
    obtain ⟨tail, rfl⟩ := List.isPrefixOf_iff_prefix.1 hprefix
    refine ⟨hfits, name.toList, ?_, hplain⟩
    rw [← String.length_toList, List.drop_left]
  · cases hname

/-! ## Strings -/

theorem hexDigit?_plain {c : Char} {n : Nat} (h : hexDigit? c = some n) : IsPlain c ∧ n < 16 := by
  unfold hexDigit? at h
  have hbounds : 48 ≤ c.toNat ∧ c.toNat ≤ 57 ∧ n = c.toNat - 48 ∨
      97 ≤ c.toNat ∧ c.toNat ≤ 102 ∧ n = c.toNat - 87 ∨
      65 ≤ c.toNat ∧ c.toNat ≤ 70 ∧ n = c.toNat - 55 := by
    split at h
    · rename_i hdigit
      obtain ⟨hlow, hhigh⟩ := Char.isDigit_iff_toNat.1 hdigit
      exact .inl ⟨hlow, hhigh, (Option.some.inj h).symm⟩
    · split at h
      · rename_i hsmall
        exact .inr (.inl ⟨hsmall.1, hsmall.2, (Option.some.inj h).symm⟩)
      · split at h
        · rename_i hlarge
          exact .inr (.inr ⟨hlarge.1, hlarge.2, (Option.some.inj h).symm⟩)
        · cases h
  rw [IsPlain]
  omega

theorem hexUnit?_plain {cs : List Char} {n : Nat} (h : hexUnit? cs = some n) :
    (∀ c ∈ cs, IsPlain c) ∧ n < 0x10000 := by
  unfold hexUnit? at h
  split at h
  · rename_i a b c d
    simp only [Option.bind_eq_bind, Option.bind_eq_some_iff, Option.pure_def, Option.some.injEq] at h
    obtain ⟨a', ha, b', hb, c', hc, d', hd, rfl⟩ := h
    have ha := hexDigit?_plain ha
    have hb := hexDigit?_plain hb
    have hc := hexDigit?_plain hc
    have hd := hexDigit?_plain hd
    refine ⟨?_, by omega⟩
    simp only [List.forall_mem_cons]
    exact ⟨ha.1, hb.1, hc.1, hd.1, by simp⟩
  · cases h

theorem peels_drop_unit {s : List Char} {n : Nat} (h : hexUnit? (s.take 4) = some n) :
    Peels s (s.drop 4) :=
  ⟨s.take 4, (List.take_append_drop 4 s).symm, (hexUnit?_plain h).1⟩

theorem peels_of_lowUnit? {s rest : List Char} {n : Nat} (h : lowUnit? s = some (.ok (n, rest))) :
    Peels s rest := by
  unfold lowUnit? at h
  split at h
  · split at h
    · cases h
    · split at h
      · cases h
      · rename_i hunit
        obtain ⟨rfl, rfl⟩ := Prod.mk.inj (Except.ok.inj (Option.some.inj h))
        exact (peels_cons (by decide)).trans ((peels_cons (by decide)).trans (peels_drop_unit hunit))
  · cases h

/-- An escape that is read is a code point, and characters that stand for themselves were taken. -/
theorem lt_of_readEscape {start n : Nat} {s rest : List Char}
    (h : readEscape start s = .ok (n, rest)) : n < pointCount ∧ Peels s rest := by
  unfold readEscape at h
  split at h
  · cases h
  · split at h
    · cases h
    · split at h
      · cases h
      · rename_i unit hunit
        have hunit' : unit < pointCount := (hexUnit?_plain hunit).2.trans (by decide)
        have hpeels := (peels_cons (by decide : IsPlain 'u')).trans (peels_drop_unit hunit)
        dsimp only at h
        split at h
        · rename_i hfirst
          split at h
          · cases h
          · rename_i hlow
            split at h
            · rename_i hsecond
              obtain ⟨rfl, rfl⟩ := Prod.mk.inj (Except.ok.inj h)
              refine ⟨?_, hpeels.trans (peels_of_lowUnit? hlow)⟩
              rw [pointCount]
              omega
            · obtain ⟨rfl, rfl⟩ := Prod.mk.inj (Except.ok.inj h)
              exact ⟨hunit', hpeels⟩
          · obtain ⟨rfl, rfl⟩ := Prod.mk.inj (Except.ok.inj h)
            exact ⟨hunit', hpeels⟩
        · obtain ⟨rfl, rfl⟩ := Prod.mk.inj (Except.ok.inj h)
          exact ⟨hunit', hpeels⟩
  · rename_i c s hc
    split at h
    · rename_i e hsimple
      obtain ⟨rfl, rfl⟩ := Prod.mk.inj (Except.ok.inj h)
      refine ⟨Text.toNat_lt_pointCount e, peels_cons ?_⟩
      unfold simpleEscape? at hsimple
      split at hsimple <;> first | decide | cases hsimple
    · cases h

/-- A text that is read from a spelled one is spelled, and so is what follows it. -/
theorem isSpelled_of_readString {start fuel : Nat} {done s rest : List Char} {t : String}
    (h : readString start fuel done s = .ok (t, rest)) (hs : IsSpelled (done.reverse ++ s)) :
    IsSpelled t.toList ∧ IsSpelled rest := by
  induction fuel generalizing done s with
  | zero => cases h
  | succ fuel ih =>
    cases s with
    | nil => cases h
    | cons c s =>
      rw [readString] at h
      split at h
      · rename_i hquote
        rw [hquote] at hs
        obtain ⟨rfl, rfl⟩ := Prod.mk.inj (Except.ok.inj h)
        rw [String.toList_ofList]
        exact hs.split (by decide)
      · split at h
        · rename_i hescape
          rw [hescape] at hs
          obtain ⟨hdone, hs⟩ := hs.split (by decide)
          split at h
          · cases h
          · rename_i n after hread
            obtain ⟨hn, hpeels⟩ := lt_of_readEscape hread
            apply ih h
            rw [List.reverse_append, List.reverse_reverse, List.append_assoc]
            exact hdone.append ((Text.isSpelled_spell hn).append (hpeels.isSpelled hs))
        · split at h
          · cases h
          · apply ih h
            rw [List.reverse_cons, List.append_assoc]
            exact hs

/-! ## Values -/

/-- Every value that is read with some fuel fits, if the text is spelled, and what follows it is
spelled. -/
def Gives (fuel : Nat) : Prop :=
  ∀ {levels : Nat} {s rest : List Char} {v : Value}, readValue fuel levels s = .ok (v, rest) →
    IsSpelled s → v.Fits levels ∧ IsSpelled rest

theorem fits_of_readItems {fuel levels : Nat} {done : List Value} {s rest : List Char} {v : Value}
    (hgives : ∀ k < fuel, Gives k) (h : readItems fuel levels done s = .ok (v, rest))
    (hs : IsSpelled s) (hdone : ∀ w ∈ done, w.Fits levels) :
    v.Fits (levels + 1) ∧ IsSpelled rest := by
  induction fuel generalizing done s with
  | zero => cases h
  | succ fuel ih =>
    rw [readItems] at h
    split at h
    · cases h
    · rename_i w after hread
      obtain ⟨hw, hafter⟩ := hgives fuel (Nat.lt_succ_self fuel) hread hs
      have hgap := (peels_skipGap after).isSpelled hafter
      have hdone' : ∀ w' ∈ w :: done, w'.Fits levels := List.forall_mem_cons.2 ⟨hw, hdone⟩
      split at h
      · rename_i tail htail
        obtain ⟨rfl, rfl⟩ := Prod.mk.inj (Except.ok.inj h)
        rw [htail] at hgap
        exact ⟨.list fun w' hw' => hdone' w' (List.mem_reverse.1 hw'),
          (Text.isSpelled_cons (by decide)).1 hgap⟩
      · rename_i tail htail
        rw [htail] at hgap
        have htail := (Text.isSpelled_cons (by decide)).1 hgap
        exact ih (fun k hk => hgives k (Nat.lt_succ_of_lt hk)) h ((peels_skipGap tail).isSpelled htail)
          hdone'
      · cases h

theorem fits_of_readFields {fuel levels : Nat} {done : List (String × Value)}
    {s rest : List Char} {v : Value} (hgives : ∀ k < fuel, Gives k)
    (h : readFields fuel levels done s = .ok (v, rest)) (hs : IsSpelled s)
    (hdone : ∀ f ∈ done, IsSpelled f.1.toList ∧ f.2.Fits levels) :
    v.Fits (levels + 1) ∧ IsSpelled rest := by
  induction fuel generalizing done s with
  | zero => cases h
  | succ fuel ih =>
    unfold readFields at h
    split at h
    · rename_i tail
      have htail := (Text.isSpelled_cons (by decide)).1 hs
      split at h
      · cases h
      · rename_i name after hname
        obtain ⟨hname, hafter⟩ := isSpelled_of_readString hname htail
        have hgap := (peels_skipGap after).isSpelled hafter
        split at h
        · rename_i hcolon
          rw [hcolon] at hgap
          have hvalue := (Text.isSpelled_cons (by decide)).1 hgap
          split at h
          · cases h
          · rename_i w after hread
            obtain ⟨hw, hafter⟩ := hgives fuel (Nat.lt_succ_self fuel) hread
              ((peels_skipGap _).isSpelled hvalue)
            have hgap := (peels_skipGap after).isSpelled hafter
            have hdone' : ∀ f ∈ (name, w) :: done, IsSpelled f.1.toList ∧ f.2.Fits levels :=
              List.forall_mem_cons.2 ⟨⟨hname, hw⟩, hdone⟩
            split at h
            · rename_i hclose
              obtain ⟨rfl, rfl⟩ := Prod.mk.inj (Except.ok.inj h)
              rw [hclose] at hgap
              have hfields : ∀ f ∈ Table.ofPairs ((name, w) :: done).reverse,
                  IsSpelled f.1.toList ∧ f.2.Fits levels := fun f hf =>
                hdone' f (List.mem_reverse.1 (Table.mem_ofPairs hf))
              exact ⟨.object (fun f hf => (hfields f hf).2) (fun f hf => (hfields f hf).1)
                (Table.nodup_keys_ofPairs _), (Text.isSpelled_cons (by decide)).1 hgap⟩
            · rename_i hcomma
              rw [hcomma] at hgap
              have htail := (Text.isSpelled_cons (by decide)).1 hgap
              exact ih (fun k hk => hgives k (Nat.lt_succ_of_lt hk)) h
                ((peels_skipGap _).isSpelled htail) hdone'
            · cases h
        · cases h
    · cases h

/-- **A value that is read fits.** -/
theorem gives (fuel : Nat) : Gives fuel := by
  induction fuel using Nat.strong_induction_on with
  | _ fuel ih =>
    intro levels s rest v h hs
    cases fuel with
    | zero => cases h
    | succ fuel =>
      have hless : ∀ k < fuel, Gives k := fun k hk => ih k (Nat.lt_succ_of_lt hk)
      unfold readValue at h
      split at h
      · -- A text.
        have htail := (Text.isSpelled_cons (by decide)).1 hs
        split at h
        · cases h
        · rename_i t after hread
          obtain ⟨rfl, rfl⟩ := Prod.mk.inj (Except.ok.inj h)
          exact ⟨.text t, (isSpelled_of_readString hread htail).2⟩
      · -- A list.
        rename_i tail
        have hgap := (peels_skipGap tail).isSpelled ((Text.isSpelled_cons (by decide)).1 hs)
        split at h
        · cases h
        · rename_i hclose
          obtain ⟨rfl, rfl⟩ := Prod.mk.inj (Except.ok.inj h)
          rw [hclose] at hgap
          exact ⟨.list (by simp), (Text.isSpelled_cons (by decide)).1 hgap⟩
        · exact fits_of_readItems hless h hgap (by simp)
      · -- An object.
        rename_i tail
        have hgap := (peels_skipGap tail).isSpelled ((Text.isSpelled_cons (by decide)).1 hs)
        split at h
        · cases h
        · rename_i hclose
          obtain ⟨rfl, rfl⟩ := Prod.mk.inj (Except.ok.inj h)
          rw [hclose] at hgap
          exact ⟨.object (by simp) (by simp) List.nodup_nil, (Text.isSpelled_cons (by decide)).1 hgap⟩
        · exact fits_of_readFields hless h hgap (by simp)
      · split at h
        · rename_i hconstant
          obtain rfl := Except.ok.inj h
          obtain ⟨hv, hpeels⟩ := fits_of_readConstant? hconstant levels
          exact ⟨hv, hpeels.isSpelled hs⟩
        · obtain ⟨hv, hpeels⟩ := fits_of_readNumber h levels
          exact ⟨hv, hpeels.isSpelled hs⟩

/-- **The value of a spelled text fits.** -/
theorem fits_of_read {text : String} {v : Value} (h : read text = .ok v)
    (hs : IsSpelled text.toList) : v.Fits levelLimit := by
  unfold read at h
  rw [Action.mapError_eq_ok_iff] at h
  split at h
  · cases h
  · split at h
    · cases h
    · rename_i hread
      have hv := (gives _ hread ((peels_skipGap _).isSpelled hs)).1
      split at h
      · obtain rfl := Except.ok.inj h
        exact hv
      · cases h

end GrammarSuite.Json
