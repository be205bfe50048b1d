import GrammarSuite.CommandLine.Program
import GrammarSuite.Proofs.Settings.Files

/-!
# What options hold
-/

namespace GrammarSuite

namespace Text

theorem digit?_lt {c : Char} {d : Nat} (h : digit? c = some d) : d < 10 := by
  obtain ⟨z, hz, rfl⟩ := Option.map_eq_some_iff.1 h
  have hfound := List.find?_some hz
  simp only [decide_eq_true_eq, Bool.and_eq_true] at hfound
  omega

theorem digits?_lt {before : Bool} {s : List Char} {ds : List Nat} (h : digits? before s = some ds) :
    ∀ d ∈ ds, d < 10 := by
  induction s generalizing before ds with
  | nil =>
    rw [digits?] at h
    split at h
    · obtain rfl := Option.some.inj h
      simp
    · cases h
  | cons c s ih =>
    rw [digits?] at h
    split at h
    · split at h
      · exact ih h
      · cases h
    · split at h
      · rename_i d hd
        obtain ⟨rest, hrest, rfl⟩ := Option.map_eq_some_iff.1 h
        exact List.forall_mem_cons.2 ⟨digit?_lt hd, ih hrest⟩
      · cases h

theorem foldl_digits_lt {ds : List Nat} (h : ∀ d ∈ ds, d < 10) (n : Nat) :
    ds.foldl (fun n d => n * 10 + d) n < (n + 1) * 10 ^ ds.length := by
  induction ds generalizing n with
  | nil => simp
  | cons d ds ih =>
    obtain ⟨hd, hds⟩ := List.forall_mem_cons.1 h
    refine Nat.lt_of_lt_of_le (ih hds (n * 10 + d)) ?_
    rw [List.length_cons, Nat.pow_succ', ← Nat.mul_assoc]
    exact Nat.mul_le_mul_right _ (by omega)

/-- The whole number of a text can be written. -/
theorem integer?_lt {s : String} {n : Int} (h : integer? s = some n) :
    n.natAbs < Json.Value.unwritable := by
  have hnatural : ∀ {cs : List Char} {k : Nat}, natural? cs = some k →
      k < Json.Value.unwritable := by
    intro cs k hk
    unfold natural? at hk
    split at hk
    · rename_i ds hds
      split at hk
      · rename_i hlength
        obtain rfl := Option.some.inj hk
        have hlt := foldl_digits_lt (digits?_lt hds) 0
        rw [Nat.zero_add, Nat.one_mul] at hlt
        exact hlt.trans_le (Json.tenPow_le_tenPow hlength)
      · cases hk
    · cases hk
  unfold integer? at h
  dsimp only at h
  split at h <;> obtain ⟨k, hk, rfl⟩ := Option.map_eq_some_iff.1 h
  · obtain ⟨n, hn, hcast⟩ := Option.bind_eq_some_iff.1 hk
    obtain rfl := Option.some.inj hcast
    rw [Int.natAbs_neg]
    exact hnatural hn
  · exact hnatural hk
  · exact hnatural hk

end Text

namespace CommandLine.Options

open Json (Value)

variable {o o' : Options}

/-- A number that can be written, or what stands for no number. -/
def IsNumber (v : Value) : Prop :=
  v = .null ∨ v = nothing ∨ ∃ n : Int, v = .int n ∧ n.natAbs < Value.unwritable

/-- A text, or what stands for no text. -/
def IsText (v : Value) : Prop := v = .null ∨ v = nothing ∨ ∃ s, v = .text s

/-- The options that change settings are numbers and texts. -/
structure IsProper (o : Options) : Prop where
  validCount : IsNumber o.validCount
  invalidCount : IsNumber o.invalidCount
  extremePerKind : IsNumber o.extremePerKind
  depth : IsNumber o.depth
  seed : IsNumber o.seed
  identifier : IsText o.identifier
  grammar : IsText o.grammar
  grammarFile : IsText o.grammarFile
  outputDirectory : IsText o.outputDirectory

theorem isNumber_of_numberOf {s : Switch} {v : Option String} {w : Value}
    (h : numberOf s v = .ok w) : IsNumber w := by
  cases v with
  | none => exact .inr (.inl (Except.ok.inj h).symm)
  | some v =>
    unfold numberOf require at h
    dsimp only at h
    rcases hn : Text.integer? v with _ | n <;> rw [hn] at h
    · cases h
    · exact .inr (.inr ⟨n, (Except.ok.inj h).symm, Text.integer?_lt hn⟩)

theorem isText_textOf (v : Option String) : IsText (textOf v) := by
  cases v with
  | none => exact .inr (.inl rfl)
  | some s => exact .inr (.inr ⟨s, rfl⟩)

theorem isText_of_choiceOf {s : Switch} {isChoice : String → Bool} {v : Option String} {w : Value}
    (h : choiceOf s isChoice v = .ok w) : IsText w := by
  cases v with
  | none => exact .inr (.inl (Except.ok.inj h).symm)
  | some v =>
    obtain ⟨s, -, rfl⟩ := Action.map_eq_ok_iff.1 h
    exact .inr (.inr ⟨s, rfl⟩)

theorem isProper_default : IsProper {} := by
  have hnumber : IsNumber .null := .inl rfl
  have htext : IsText .null := .inl rfl
  exact ⟨hnumber, hnumber, hnumber, hnumber, hnumber, htext, htext, htext, htext⟩

theorem IsProper.withFlag {s : Switch} (ho : o.IsProper) (h : o.withFlag s = .ok o') :
    o'.IsProper := by
  unfold Options.withFlag at h
  split at h <;> cases h <;> exact { ho with }

theorem IsProper.withValue {s : Switch} {v : Option String} (ho : o.IsProper)
    (h : o.withValue s v = .ok o') : o'.IsProper := by
  cases s with
  | mode | kind =>
    obtain ⟨w, -, rfl⟩ := Action.map_eq_ok_iff.1 h
    exact { ho with }
  | grammar =>
    obtain ⟨w, hw, rfl⟩ := Action.map_eq_ok_iff.1 h
    exact { ho with grammar := isText_of_choiceOf hw }
  | valid =>
    obtain ⟨w, hw, rfl⟩ := Action.map_eq_ok_iff.1 h
    exact { ho with validCount := isNumber_of_numberOf hw }
  | invalid =>
    obtain ⟨w, hw, rfl⟩ := Action.map_eq_ok_iff.1 h
    exact { ho with invalidCount := isNumber_of_numberOf hw }
  | extreme =>
    obtain ⟨w, hw, rfl⟩ := Action.map_eq_ok_iff.1 h
    exact { ho with extremePerKind := isNumber_of_numberOf hw }
  | depth =>
    obtain ⟨w, hw, rfl⟩ := Action.map_eq_ok_iff.1 h
    exact { ho with depth := isNumber_of_numberOf hw }
  | seed =>
    obtain ⟨w, hw, rfl⟩ := Action.map_eq_ok_iff.1 h
    exact { ho with seed := isNumber_of_numberOf hw }
  | grammarFile =>
    obtain rfl := Except.ok.inj h
    exact { ho with grammarFile := isText_textOf v }
  | identifier =>
    obtain rfl := Except.ok.inj h
    exact { ho with identifier := isText_textOf v }
  | outputDirectory =>
    obtain rfl := Except.ok.inj h
    exact { ho with outputDirectory := isText_textOf v }
  | logLevel =>
    obtain ⟨w, -, hw⟩ := Action.bind_eq_ok_iff.1 h
    obtain rfl := Except.ok.inj hw
    exact { ho with }
  | input | exportTo | configDirectory | logFile =>
    obtain rfl := Except.ok.inj h
    exact { ho with }
  | help | listGrammars | report | saveConfig | quiet | tui => cases h

/-- What every switch keeps, the words of a list keep. -/
theorem readWords_keeps {P : Options → Prop}
    (hflag : ∀ {o o' : Options} {s : Switch}, P o → o.withFlag s = .ok o' → P o')
    (hvalue : ∀ {o o' : Options} {s : Switch} {v : Option String}, P o →
      o.withValue s v = .ok o' → P o')
    {stray : Bool} {words : List Word} (ho : P o) (h : o.readWords stray words = .ok o') : P o' := by
  fun_induction Options.readWords o stray words with
  | case1 => cases h
  | case2 =>
    obtain rfl := Except.ok.inj h
    exact ho
  | case3 o stray s v rest ih | case5 o stray s v rest hs ih | case6 o stray s rest hrest hs ih =>
    obtain ⟨o₁, ho₁, hrest⟩ := Action.bind_eq_ok_iff.1 h
    exact ih o₁ (hvalue ho ho₁) hrest
  | case4 o stray s v rest hs ih | case7 o stray s rest hrest hs ih =>
    obtain ⟨o₁, ho₁, hrest⟩ := Action.bind_eq_ok_iff.1 h
    exact ih o₁ (hflag ho ho₁) hrest
  | case8 o stray word rest hvalue hflag hnone ih => exact ih ho h

/-- **The options of a list of arguments are proper.** -/
theorem isProper_of_read {arguments : List String} (h : read arguments = .ok o) : o.IsProper := by
  unfold read at h
  split at h
  · cases h
  · exact readWords_keeps (fun ho h => ho.withFlag h) (fun ho h => ho.withValue h)
      isProper_default h

/-! ## Changed settings -/

section

open Settings

variable {name : String} {v : Value} {m : Table String Value} {directory : Value}

theorem suits_of_isNumber (hv : IsNumber v) (hname : Text.IsAscii name)
    (hne : name ≠ "app_dir" ∧ name ≠ "self" ∧ name ≠ "output_dir" ∧ name ≠ "grammar_file")
    (hnull : isNull v = false) : Suits name v where
  fits := by
    rcases hv with rfl | rfl | ⟨n, rfl, hn⟩
    · cases hnull
    · exact .list (by simp)
    · exact .int hn
  spelled := hname.isSpelled
  ne_directory := hne.1
  ne_self := hne.2.1
  output h := absurd h hne.2.2.1
  file h := absurd h hne.2.2.2

theorem suits_of_isText (hv : IsText v) (hname : Text.IsAscii name)
    (hne : name ≠ "app_dir" ∧ name ≠ "self") (houtput : name = "output_dir" → v ≠ nothing)
    (hnull : isNull v = false) : Suits name v := by
  rcases hv with rfl | rfl | ⟨s, rfl⟩
  · cases hnull
  · exact ⟨.list (by simp), hname.isSpelled, hne.1, hne.2, fun h => absurd rfl (houtput h),
      fun _ h => by cases h⟩
  · exact suits_text hname.isSpelled hne.1 hne.2 s

/-- What options change can be saved, unless the output directory has no value. -/
theorem suits_changes (ho : o.IsProper) (houtput : o.outputDirectory ≠ nothing) :
    ∀ f ∈ o.changes, isNull f.2 = false → Suits f.1 f.2 := by
  simp only [changes, List.forall_mem_cons]
  exact ⟨suits_of_isNumber ho.validCount (by decide) (by decide),
    suits_of_isNumber ho.invalidCount (by decide) (by decide),
    suits_of_isNumber ho.extremePerKind (by decide) (by decide),
    suits_of_isNumber ho.depth (by decide) (by decide),
    suits_of_isNumber ho.seed (by decide) (by decide),
    suits_of_isText ho.identifier (by decide) (by decide) (fun h => absurd h (by decide)),
    suits_of_isText ho.grammar (by decide) (by decide) (fun h => absurd h (by decide)),
    suits_of_isText ho.grammarFile (by decide) (by decide) (fun h => absurd h (by decide)),
    suits_of_isText ho.outputDirectory (by decide) (by decide) (fun _ => houtput), by simp⟩

/-- Settings that options change stay where they are. -/
theorem changed_ofParts (o : Options) (m : Table String Value) (directory : Value) :
    ∃ m', o.changed (ofParts m directory) = .ok (ofParts m' directory) ∧
      (IsSavable m → o.IsProper → o.outputDirectory ≠ nothing → IsSavable m') := by
  have hupdated : IsSavable m → o.IsProper → o.outputDirectory ≠ nothing →
      IsSavable (m.merge (o.changes.filter fun f => !isNull f.2)) := by
    intro hm ho houtput
    refine hm.merge fun f hf => ?_
    obtain ⟨hmem, hnull⟩ := List.mem_filter.1 hf
    exact suits_changes ho houtput f hmem (by simpa using hnull)
  have hfile : Suits "grammar_file" .null := by
    have hascii : Text.IsAscii "grammar_file" := by decide
    exact ⟨.null, hascii.isSpelled, by decide, by decide, fun h => absurd h (by decide),
      fun _ h => by cases h⟩
  have hmarked : ∀ m₁, (IsSavable m → o.IsProper → o.outputDirectory ≠ nothing → IsSavable m₁) →
      ∃ m', (if o.tui then (ofParts m₁ directory).assign "tui" (.bool true)
        else pure (ofParts m₁ directory)) = .ok (ofParts m' directory) ∧
        (IsSavable m → o.IsProper → o.outputDirectory ≠ nothing → IsSavable m') := by
    intro m₁ hm₁
    have hascii : Text.IsAscii "tui" := by decide
    have htui : Suits "tui" (.bool true) := ⟨.bool true, hascii.isSpelled, by decide, by decide,
      fun h => absurd h (by decide), fun h => absurd h (by decide)⟩
    split
    · exact ⟨_, assign_ofParts (by decide), fun hm ho hout => (hm₁ hm ho hout).insert htui⟩
    · exact ⟨m₁, rfl, hm₁⟩
  unfold changed
  rw [update_ofParts]
  by_cases hbuiltin : o.choosesBuiltin = true
  · simp only [hbuiltin, if_true]
    exact hmarked _ fun hm ho hout => (hupdated hm ho hout).insert hfile
  · simp only [hbuiltin]
    exact hmarked _ hupdated

/-- **Loaded settings that options change** can be saved, unless the output directory has no
value. -/
theorem isLoaded_changed {s s' : Settings} (hs : IsLoaded s) (ho : o.IsProper)
    (houtput : o.outputDirectory ≠ nothing) (h : o.changed s = .ok s') : IsLoaded s' := by
  obtain ⟨m, path, rfl, hm⟩ := hs
  obtain ⟨m', hm', hsavable⟩ := changed_ofParts o m (.text path)
  rw [hm'] at h
  exact ⟨m', path, (Except.ok.inj h).symm, hsavable hm ho houtput⟩

end

end CommandLine.Options

end GrammarSuite
