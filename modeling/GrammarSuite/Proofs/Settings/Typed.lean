import GrammarSuite.Proofs.Settings.Values
import GrammarSuite.Proofs.Run.Sections
import GrammarSuite.Settings.File

/-!
# Settings of the usual kinds

Settings whose values have the kinds of the usual ones. Checking them finds faults, which are reported,
and has no other failure. If they pass the check, runs are planned well by them.

## Main definitions

* `Settings.IsTyped`: the settings that runs are made from have the kinds of the usual ones
* `Settings.Faults`: the only failures are faults that are reported

## Main results

* `Settings.load_givesOnly`: loaded settings are a table and a directory
* `Settings.validate_faults`: how the check fails
* `Settings.plan_valid`: the plan of settings that pass the check
-/

namespace GrammarSuite

open GrammarSuite.Action
open Json (Value)

namespace Settings

variable {m m' changes : Table String Value} {directory v : Value} {home name : String}
  {s s' : Settings}

/-- The settings that runs are made from have the kinds of the usual ones: a seed may be there or
not, and a grammar file too. -/
structure IsTyped (s : Settings) : Prop where
  numbers : ∀ name ∈ "max_depth" :: countNames, ∃ n : Int, s.value name = .int n
  texts : ∀ name ∈ ["identifier", "grammar"], ∃ text, s.value name = .text text
  seed : s.value "seed" = .null ∨ ∃ n : Int, s.value "seed" = .int n
  file : s.value "grammar_file" = .null ∨ ∃ text, s.value "grammar_file" = .text text

/-- Loaded settings are a table and a directory. -/
theorem load_givesOnly (home : String) (directory : Value) :
    (load home directory).GivesOnly fun s => ∃ m d, s = ofParts m d := by
  have hvalues : ∀ (x : Except SettingsError Settings),
      (∀ s, x = .ok s → ∃ m d, s = ofParts m d) →
      (MonadExcept.ofExcept x : Action FileTree SettingsError Settings).GivesOnly
        fun s => ∃ m d, s = ofParts m d := by
    intro x hx
    cases x with
    | ok s => exact .pure (hx s rfl)
    | error e => exact .throw e
  have hparts : ∀ {path : String} {changes : Table String Value} {s : Settings},
      ofValues home (some (.text path)) changes = .ok s → ∃ m d, s = ofParts m d := by
    intro path changes s hs
    obtain ⟨m, rfl, -⟩ := expands_of_ofValues hs
    exact ⟨m, _, rfl⟩
  unfold load
  refine GivesOnly.bind fun path => GivesOnly.bind fun t => ?_
  split
  · refine hvalues _ fun s hs => ?_
    obtain ⟨fields, -, hs⟩ := bind_eq_ok_iff.1 hs
    exact hparts hs
  · exact GivesOnly.bind fun _ => hvalues _ fun s hs => hparts hs

/-- A setting keeps its value under changes, or it has the value of one that is not null. -/
theorem value_merge (m changes : Table String Value) (directory : Value) (name : String) :
    let changed := ofParts (m.merge (changes.filter fun f => !isNull f.2)) directory
    changed.value name = (ofParts m directory).value name ∨
      ∃ v, (name, v) ∈ changes ∧ v ≠ .null ∧ changed.value name = v := by
  dsimp only
  rw [value_ofParts, value_ofParts, Table.get?_merge]
  rcases hget : Table.get? name (changes.filter fun f => !isNull f.2).reverse with _ | v
  · rw [hget]
    exact .inl rfl
  · rw [hget]
    obtain ⟨hmem, hnull⟩ := List.mem_filter.1 (List.mem_reverse.1 (Table.mem_of_get? hget))
    refine .inr ⟨v, hmem, ?_, rfl⟩
    rintro rfl
    cases hnull

/-! ## The check -/

/-- A value that is not null is one that is set. -/
theorem get?_of_value (hv : v ≠ .null) (h : (ofParts m directory).value name = v) :
    m.get? name = some v := by
  rw [value_ofParts] at h
  rcases hget : m.get? name with _ | w <;> rw [hget] at h
  · exact absurd h.symm hv
  · exact congrArg some h

theorem get?_of_int {n : Int} (h : (ofParts m directory).value name = .int n) :
    m.get? name = some (.int n) := get?_of_value (by simp) h

theorem less_int (n bound : Int) : less (.int n) bound = .ok (decide (n < bound)) := by
  simp [less, Value.less, Value.holds, Value.plainHold, Value.number?, Json.Relation.decided,
    Json.Number.less, Except.mapError]

/-- Every failure is a fault that is reported as one of the settings. -/
def Faults {α : Type} (x : Except SettingsError α) : Prop := ∀ e, x = .error e → ∃ c, e = .config c

theorem Faults.of_ok {α : Type} {x : Except SettingsError α} {a : α} (h : x = .ok a) :
    Faults x := by
  intro e he
  rw [h] at he
  cases he

theorem Faults.throw {α : Type} (c : ConfigError) :
    Faults (MonadExcept.throw (SettingsError.config c) : Except SettingsError α) :=
  fun _ h => ⟨c, (Except.error.inj h).symm⟩

theorem Faults.bind {α β : Type} {x : Except SettingsError α} {k : α → Except SettingsError β}
    (hx : Faults x) (hk : ∀ a, x = .ok a → Faults (k a)) : Faults (x >>= k) := by
  intro e h
  rcases bind_eq_error_iff.1 h with h | ⟨a, ha, h⟩
  · exact hx e h
  · exact hk a ha e h

theorem Faults.forM {names : List String} {check : String → Except SettingsError Unit}
    (h : ∀ name ∈ names, Faults (check name)) : Faults (names.forM check) := by
  induction names with
  | nil => exact .of_ok rfl
  | cons name names ih =>
    obtain ⟨hname, hnames⟩ := List.forall_mem_cons.1 h
    exact hname.bind fun _ _ => ih hnames

/-- The check of a count that is a number reports that it is too low. -/
theorem validateCount_faults {n : Int} (h : m.get? name = some (.int n)) :
    Faults ((ofParts m directory).validateCount name) := by
  have hentry : entry name (.object m) = .ok (.int n) := by
    rw [entry, Value.under, h]
    rfl
  unfold validateCount
  refine (Faults.of_ok values_ofParts).bind fun values hvalues => ?_
  obtain rfl := Except.ok.inj hvalues
  refine (Faults.of_ok hentry).bind fun v hv => ?_
  obtain rfl := Except.ok.inj (hentry.symm.trans hv)
  refine (Faults.of_ok (less_int n 0)).bind fun b _ => ?_
  split
  · exact .throw _
  · exact .of_ok rfl

/-- **The check of settings of the usual kinds** reports whatever is wrong. -/
theorem validate_faults (hs : (ofParts m directory).IsTyped) :
    Faults (ofParts m directory).validate := by
  have hnumber : ∀ name ∈ "max_depth" :: countNames, ∃ n, m.get? name = some (.int n) :=
    fun name hname => (hs.numbers name hname).imp fun n hn => get?_of_int hn
  have hcount : ∀ name ∈ countNames, Faults ((ofParts m directory).validateCount name) := by
    intro name hname
    obtain ⟨n, hn⟩ := hnumber name (List.mem_cons_of_mem _ hname)
    exact validateCount_faults hn
  obtain ⟨n, hn⟩ := hnumber "max_depth" List.mem_cons_self
  have hdepth : (ofParts m directory).lookup "max_depth" = .ok (.int n) := by
    rw [lookup_ofParts (by decide), hn]
  obtain ⟨text, htext⟩ := hs.texts "identifier" (by decide)
  have hidentifier : (ofParts m directory).lookup "identifier" = .ok (.text text) := by
    rw [lookup_ofParts (by decide), get?_of_value (by simp) htext]
  unfold validate
  refine (Faults.of_ok hdepth).bind fun v hv => ?_
  obtain rfl := Except.ok.inj (hdepth.symm.trans hv)
  refine (Faults.of_ok (less_int n 1)).bind fun b _ => ?_
  split
  · exact (Faults.throw _).bind fun _ h => by cases h
  · refine (Faults.forM hcount).bind fun _ _ => (Faults.of_ok hidentifier).bind fun v _ => ?_
    split
    · exact .throw _
    · exact .of_ok rfl

/-- Settings of the usual kinds that pass the check make a valid plan. -/
theorem plan_valid (hs : (ofParts m directory).IsTyped)
    (hvalid : (ofParts m directory).validate = .ok ()) : (ofParts m directory).plan.Valid := by
  obtain ⟨⟨v, hv, hdepth⟩, hcounts, ⟨w, hw, htruthy⟩⟩ := validate_ofParts_iff.1 hvalid
  have hreaches : ∀ {bound : Int} {name : String} {v : Value},
      (∃ n : Int, (ofParts m directory).value name = .int n) → m.get? name = some v →
      v.less (.int bound) = .ok false → Plan.reaches bound ((ofParts m directory).value name) := by
    rintro bound name v ⟨n, hn⟩ hv hless
    obtain rfl := Option.some.inj ((get?_of_int hn).symm.trans hv)
    obtain hle := Except.ok.inj ((less_int n bound).symm.trans (less_eq_ok_iff.2 hless))
    rw [hn]
    simpa [Plan.reaches] using hle
  have hcount : ∀ name ∈ countNames, Plan.reaches 0 ((ofParts m directory).value name) := by
    intro name hname
    obtain ⟨v, hv, hless⟩ := hcounts name hname
    exact hreaches (hs.numbers name (List.mem_cons_of_mem _ hname)) hv hless
  refine ⟨hreaches (hs.numbers _ List.mem_cons_self) hv hdepth, hcount _ (by decide),
    hcount _ (by decide), hcount _ (by decide), ?_⟩
  obtain ⟨text, htext⟩ := hs.texts "identifier" (by decide)
  have hvalue : (ofParts m directory).value "identifier" = w := by rw [value_ofParts, hw]; rfl
  show Plan.spells ((ofParts m directory).value "identifier") = true
  rw [hvalue] at htext ⊢
  rw [htext] at htruthy ⊢
  simpa [Plan.spells, Value.truthy] using htruthy

end Settings

end GrammarSuite
