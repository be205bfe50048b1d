import GrammarSuite.Case.Session
import GrammarSuite.Proofs.Action
import GrammarSuite.Proofs.Extreme.Search

/-!
# Labelled subjects

Subjects whose contents are texts and whose entries may be added become cases one after the other,
and nothing can go wrong but that a number has too many digits to be written. What a case shows
apart from its identifier and its time is fixed by its subject alone.

## Main definitions

* `Subject.IsProper`: what an engine makes can be labelled
* `Subject.case`, `Subject.casesAfter`: a subject as the case of a number, and subjects as the cases
  after a number
* `TestCase.face`: what a case shows apart from its identifier and its time
* `TestCase.number`: the number of an identifier

## Main results

* `Session.classifyAll_runOn`, `Session.classifyAll_eq_error`: the cases of proper subjects
* `Subject.map_face_casesAfter`, `Subject.map_number_casesAfter`: what they show, and their numbers
* `TestCase.get?_annotateAll`, `TestCase.mem_of_get?_annotateAll`: the entries of a case
-/

namespace GrammarSuite

open GrammarSuite.Action

open Json (Misuse Value)

namespace TestCase

variable {c : TestCase} {entries : List (String × Value)} {name : String} {v : Value}

/-- Entries change nothing but the metadata. -/
theorem annotateAll_eq (c : TestCase) (entries : List (String × Value)) :
    c.annotateAll entries = { c with
      metadata := entries.foldl (fun found e => found.write (.text e.1) e.2) c.metadata } := by
  induction entries generalizing c with
  | nil => rfl
  | cons e rest ih => exact ih (c.annotate (.text e.1) e.2)

/-- What is found in the metadata of a case without entries of its own is one of the entries that
were added. -/
theorem mem_of_get?_annotateAll (hc : c.metadata = [])
    (h : (c.annotateAll entries).metadata.get? name = some v) : (name, v) ∈ entries := by
  induction entries using List.reverseRecOn with
  | nil =>
    rw [annotateAll_eq] at h
    simp [hc, Json.Entries.get?] at h
  | append_singleton entries e ih =>
    rw [annotateAll_eq, List.foldl_append, List.foldl_cons, List.foldl_nil] at h
    rw [annotateAll_eq] at ih
    by_cases hname : e.1 = name
    · rw [← hname, Json.Entries.get?_write_text] at h
      obtain rfl := Option.some.inj h
      exact List.mem_append_right _ (by rw [← hname, List.mem_singleton])
    · rw [Json.Entries.get?_write_of_ne _ _ (by simpa using hname)] at h
      exact List.mem_append_left _ (ih h)

/-- Where entries have different names, each is found under its own. -/
theorem get?_annotateAll (hnames : (entries.map Prod.fst).Nodup) (h : (name, v) ∈ entries) :
    (c.annotateAll entries).metadata.get? name = some v := by
  induction entries using List.reverseRecOn with
  | nil => cases h
  | append_singleton entries e ih =>
    rw [List.map_append, List.nodup_append] at hnames
    obtain ⟨hbefore, -, hapart⟩ := hnames
    rw [annotateAll_eq, List.foldl_append, List.foldl_cons, List.foldl_nil]
    rcases List.mem_append.1 h with hmem | hmem
    · -- The last entry has another name, so that it hides nothing.
      have hne : e.1 ≠ name := by
        rintro rfl
        exact hapart _ (List.mem_map_of_mem hmem) e.1 (by simp) rfl
      rw [Json.Entries.get?_write_of_ne _ _ (by simpa using hne)]
      rw [annotateAll_eq] at ih
      exact ih hbefore hmem
    · obtain rfl := List.mem_singleton.1 hmem
      exact Json.Entries.get?_write_text _ _ _

/-- What a case shows apart from its identifier and its time. -/
def face (c : TestCase) : Value × Value × Json.Entries := (c.content, c.description, c.metadata)

/-- The number that the digits of an identifier write. -/
def number (c : TestCase) : Nat := Nat.ofDigitChars 10 (c.id.display.toList.filter Char.isDigit) 0

end TestCase

theorem Json.Value.one_lt_unwritable : 1 < unwritable := by
  have hpow : ∀ n, n ≠ 0 → 1 < Decimal.tenPow n := fun _ hn => Nat.one_lt_pow hn (by decide)
  exact hpow _ (by decide)

theorem Json.Value.unwritable_pos : 0 < unwritable := Nat.zero_lt_of_lt one_lt_unwritable

namespace Session

theorem numberText_natCast (n : Nat) : numberText n = Instant.padded 4 n := by
  rw [numberText, if_pos (Int.natCast_nonneg n), Int.toNat_natCast]

end Session

/-- A padded number consists of digits. -/
theorem Instant.isDigit_of_mem_padded {width n : Nat} {d : Char}
    (h : d ∈ (padded width n).toList) : d.isDigit = true := by
  rw [padded, String.toList_ofList] at h
  rcases List.mem_append.1 h with h | h
  · obtain rfl := List.eq_of_mem_replicate h
    rfl
  · exact Nat.isDigit_of_mem_toDigits (by decide) (by decide) h

/-- A padded number is read back. -/
theorem Instant.ofDigitChars_padded (width n : Nat) :
    Nat.ofDigitChars 10 (padded width n).toList 0 = n := by
  rw [padded, String.toList_ofList, Nat.ofDigitChars_append, Nat.ofDigitChars_replicate_zero,
    Nat.mul_zero, Decimal.digits, Nat.ofDigitChars_ten_toDigits]

/-- The number is read from an identifier, whatever its category. -/
theorem TestCase.number_of_id_eq {c : TestCase} {category : Category} {n : Nat}
    (h : c.id = .text (category.name ++ "_" ++ Instant.padded 4 n)) : c.number = n := by
  have hname : (category.name ++ "_").toList.filter Char.isDigit = [] := by
    cases category <;> rfl
  rw [number, h, Value.display, String.toList_append, List.filter_append, hname, List.nil_append,
    List.filter_eq_self.2 fun _ => Instant.isDigit_of_mem_padded, Instant.ofDigitChars_padded]

namespace Subject

variable {s : Subject} {subjects : List Subject} {spelling : String} {created : Instant}

/-- What is labelled is a text, and its entries may be added. -/
def IsProper (s : Subject) : Prop :=
  (∃ text, s.content = .text text) ∧ ∀ e ∈ s.entries, isEntry e.2

theorem ofDerivation_isProper (d : Derivation) : (ofDerivation d).IsProper :=
  ⟨⟨d.text, rfl⟩, by simp [ofDerivation, valid, isEntry]⟩

theorem ofMutation_isProper (m : Mutation) : (ofMutation m).IsProper :=
  ⟨⟨m.text, rfl⟩, by simp [ofMutation, invalid, isEntry]⟩

theorem ofExtreme_isProper {e : Extreme} (h : e.IsMeasured) : (ofExtreme e).IsProper := by
  refine ⟨⟨e.text, rfl⟩, fun entry hentry => ?_⟩
  simp only [ofExtreme, List.mem_append, List.mem_cons, List.not_mem_nil, or_false] at hentry
  rcases hentry with ((rfl | rfl) | hmeasure) | rfl
  · rfl
  · rfl
  · obtain ⟨m, -, rfl⟩ := List.mem_map.1 hmeasure
    obtain ⟨n, hn⟩ := h m
    rw [hn]
    rfl
  · rfl

/-- The entries of a case: those of its category, and those that every case has. -/
def allEntries (spelling : String) (s : Subject) : List (String × Value) :=
  s.entries ++ stringMetadata spelling s.content.display

/-- A subject as the case of a number. -/
def case (spelling : String) (created : Instant) (n : Nat) (s : Subject) : TestCase :=
  TestCase.annotateAll
    { id := .text (s.category.name ++ "_" ++ Instant.padded 4 n)
      content := s.content
      category := s.category
      description := s.description
      created } (s.allEntries spelling)

@[simp] theorem category_case (n : Nat) : (s.case spelling created n).category = s.category := by
  rw [case, TestCase.annotateAll_eq]

@[simp] theorem id_case (n : Nat) : (s.case spelling created n).id =
    .text (s.category.name ++ "_" ++ Instant.padded 4 n) := by
  rw [case, TestCase.annotateAll_eq]

/-- Only the time of a case hangs on the time at which it is made. -/
theorem case_at (created' : Instant) (n : Nat) : s.case spelling created' n =
    { s.case spelling created n with created := created' } := by
  rw [case, case, TestCase.annotateAll_eq, TestCase.annotateAll_eq]

/-- What a subject shows as a case, whatever its number and its time. -/
def face (spelling : String) (s : Subject) : Value × Value × Json.Entries :=
  (s.content, s.description,
    (s.allEntries spelling).foldl (fun found e => found.write (.text e.1) e.2) [])

theorem face_case (n : Nat) : (s.case spelling created n).face = s.face spelling := by
  rw [case, TestCase.annotateAll_eq]
  rfl

/-- The number of a case is read from its identifier. -/
theorem number_case (n : Nat) : (s.case spelling created n).number = n :=
  TestCase.number_of_id_eq (id_case n)

/-- Subjects as the cases after a number. -/
def casesAfter (spelling : String) (created : Instant) : Nat → List Subject → List TestCase
  | _, [] => []
  | n, s :: rest => s.case spelling created (n + 1) :: casesAfter spelling created (n + 1) rest

theorem casesAfter_cons (n : Nat) (s : Subject) (rest : List Subject) :
    casesAfter spelling created n (s :: rest) =
      s.case spelling created (n + 1) :: casesAfter spelling created (n + 1) rest := rfl

@[simp] theorem length_casesAfter (n : Nat) :
    (casesAfter spelling created n subjects).length = subjects.length := by
  induction subjects generalizing n with
  | nil => rfl
  | cons s rest ih => rw [casesAfter_cons, List.length_cons, List.length_cons, ih]

theorem casesAfter_append (n : Nat) (first second : List Subject) :
    casesAfter spelling created n (first ++ second) =
      casesAfter spelling created n first ++
        casesAfter spelling created (n + first.length) second := by
  induction first generalizing n with
  | nil => rfl
  | cons s rest ih =>
    rw [List.cons_append, casesAfter_cons, casesAfter_cons, ih, List.cons_append, List.length_cons]
    congr 3
    omega

/-- A case has the category, the content and the entries of one of the subjects. -/
theorem exists_of_mem_casesAfter {n : Nat} {c : TestCase}
    (h : c ∈ casesAfter spelling created n subjects) :
    ∃ s ∈ subjects, ∃ k, c = s.case spelling created k := by
  induction subjects generalizing n with
  | nil => cases h
  | cons s rest ih =>
    rcases List.mem_cons.1 h with rfl | h
    · exact ⟨s, List.mem_cons_self, n + 1, rfl⟩
    · obtain ⟨s', hs', k, rfl⟩ := ih h
      exact ⟨s', List.mem_cons_of_mem _ hs', k, rfl⟩

/-- Subjects of one category have all their cases in it. -/
theorem filter_casesAfter {own category : Category} (h : ∀ s ∈ subjects, s.category = own)
    (n : Nat) : (casesAfter spelling created n subjects).filter (·.category = category) =
      if own = category then casesAfter spelling created n subjects else [] := by
  have hown : ∀ c ∈ casesAfter spelling created n subjects, c.category = own := fun c hc => by
    obtain ⟨s, hs, k, rfl⟩ := exists_of_mem_casesAfter hc
    rw [category_case, h s hs]
  split
  · rename_i hcategory
    exact List.filter_eq_self.2 fun c hc => decide_eq_true ((hown c hc).trans hcategory)
  · rename_i hcategory
    exact List.filter_eq_nil_iff.2 fun c hc => by simpa [hown c hc] using hcategory

/-- **What cases show is fixed by their subjects.** -/
theorem map_face_casesAfter (n : Nat) :
    (casesAfter spelling created n subjects).map TestCase.face = subjects.map (face spelling) := by
  induction subjects generalizing n with
  | nil => rfl
  | cons s rest ih => rw [casesAfter_cons, List.map_cons, List.map_cons, face_case, ih]

theorem map_content_casesAfter (n : Nat) :
    (casesAfter spelling created n subjects).map TestCase.content =
      subjects.map Subject.content := by
  have hface := congrArg (List.map Prod.fst) (@map_face_casesAfter subjects spelling created n)
  rw [List.map_map, List.map_map] at hface
  exact hface

theorem map_category_casesAfter (n : Nat) :
    (casesAfter spelling created n subjects).map TestCase.category =
      subjects.map Subject.category := by
  induction subjects generalizing n with
  | nil => rfl
  | cons s rest ih => rw [casesAfter_cons, List.map_cons, List.map_cons, category_case, ih]

/-- **The numbers of cases follow each other.** -/
theorem map_number_casesAfter (n : Nat) :
    (casesAfter spelling created n subjects).map TestCase.number =
      List.range' (n + 1) subjects.length := by
  induction subjects generalizing n with
  | nil => rfl
  | cons s rest ih =>
    rw [casesAfter_cons, List.map_cons, List.length_cons, List.range'_succ, number_case, ih]

/-- Cases that are made at another time have another time. -/
theorem casesAfter_at (created' : Instant) (n : Nat) :
    casesAfter spelling created' n subjects =
      (casesAfter spelling created n subjects).map fun c => { c with created := created' } := by
  induction subjects generalizing n with
  | nil => rfl
  | cons s rest ih =>
    rw [casesAfter_cons, casesAfter_cons, List.map_cons, ih, ← case_at]

end Subject

namespace Session

variable {s : Subject} {subjects : List Subject} {spelling : String} {created : Instant} {n : Nat}

/-- A proper subject becomes the case of the next number, if the number can be written. -/
theorem classify_of_isProper (h : s.IsProper) : (classify (.ok created) s).runOn
    ⟨.text spelling, .int n⟩ =
      (if n + 1 < Value.unwritable then .ok (s.case spelling created (n + 1))
        else .error .longNumber, ⟨.text spelling, .int (n + 1 : Nat)⟩) := by
  obtain ⟨content, category, description, entries⟩ := s
  obtain ⟨⟨text, rfl⟩, hentries⟩ := h
  have hwritable : (Value.int ((n : Int) + 1)).isWritable = decide (n + 1 < Value.unwritable) := by
    rw [Value.isWritable, show ((n : Int) + 1).natAbs = n + 1 by omega]
  split
  · rename_i hn
    have hsuccessor : (n : Int) + 1 = (n + 1 : Nat) := rfl
    rw [classify_runOn (by rw [hwritable]; exact decide_eq_true hn) hentries, hsuccessor,
      numberText_natCast]
    rfl
  · rename_i hn
    simp [classify, successor, labelled, counterText, Value.written, hwritable, hn, bind,
      Except.bind]

/-- Proper subjects become the cases after the counter, if their numbers can be written. Otherwise
the counter stays at the first number that is too long. -/
theorem classifyAll_of_isProper (hproper : ∀ s ∈ subjects, s.IsProper) :
    (classifyAll (.ok created) subjects).runOn ⟨.text spelling, .int n⟩ =
      if subjects = [] ∨ n + subjects.length < Value.unwritable then
        (.ok (Subject.casesAfter spelling created n subjects),
          ⟨.text spelling, .int (n + subjects.length : Nat)⟩)
      else (.error .longNumber, ⟨.text spelling, .int (max (n + 1) Value.unwritable : Nat)⟩) := by
  induction subjects generalizing n with
  | nil => rfl
  | cons s rest ih =>
    rw [List.forall_mem_cons] at hproper
    rw [classifyAll, runOn_bind, classify_of_isProper hproper.1, List.length_cons]
    by_cases hnext : n + 1 < Value.unwritable
    · rw [if_pos hnext]
      dsimp only
      rw [runOn_bind, ih hproper.2]
      by_cases hrest : n + (rest.length + 1) < Value.unwritable
      · rw [if_pos (.inr (by omega)), if_pos (.inr hrest), Nat.add_comm rest.length, Nat.add_assoc]
        rfl
      · -- The counter has not reached the bound yet, so that some subject is left.
        have hne : rest ≠ [] := by
          rintro rfl
          exact hrest hnext
        rw [if_neg (by simp [hne]; omega), if_neg (by simp; omega),
          show max (n + 1 + 1) Value.unwritable = max (n + 1) Value.unwritable by omega]
    · rw [if_neg hnext, if_neg (by simp; omega), Nat.max_eq_left (by omega)]

/-- **Proper subjects become the cases after the counter**, if their numbers can be written. -/
theorem classifyAll_runOn (hproper : ∀ s ∈ subjects, s.IsProper)
    (hn : n + subjects.length < Value.unwritable) :
    (classifyAll (.ok created) subjects).runOn ⟨.text spelling, .int n⟩ =
      (.ok (Subject.casesAfter spelling created n subjects),
        ⟨.text spelling, .int (n + subjects.length : Nat)⟩) := by
  rw [classifyAll_of_isProper hproper, if_pos (.inr hn)]

/-- **Otherwise a number is too long.** -/
theorem classifyAll_eq_error (hproper : ∀ s ∈ subjects, s.IsProper)
    (hcounter : n < Value.unwritable) (hn : Value.unwritable ≤ n + subjects.length) :
    ((classifyAll (.ok created) subjects).runOn ⟨.text spelling, .int n⟩).1 =
      .error .longNumber := by
  rw [classifyAll_of_isProper hproper, if_neg]
  rintro (rfl | h)
  · rw [List.length_nil] at hn
    omega
  · omega

end Session

end GrammarSuite
