import GrammarSuite.Proofs.Case.Labelling
import GrammarSuite.Proofs.Decimal.Shortest
import Mathlib.Data.List.TakeWhile

/-!
# The numbers of a session

A session is asked for cases, one at a time or many at once, and to start again. Whatever it was
asked for, in whatever order, the cases that it made since it last started are numbered by their
places, and no two of them have the same identifier.

A number is written with at least four digits and at most 4300. A session that has counted beyond
that makes no more cases until it starts again.

## Main definitions

* `Origin`, `Request`: what is labelled, and what may be asked of a session
* `Ledger`: a session with the cases that it made since it last started
* `TestCase.HasNumber`: the identifier of a case is its category and a number
* `Ledger.Numbered`: what remains true of a session

## Main results

* `Text.integer?_padded`: a padded number is read back
* `Ledger.perform_numbered`, `Ledger.performAll_numbered`: one request, and a sequence of them
* `Ledger.identifiers_of_requests`: the identifiers of a session
-/

namespace GrammarSuite

open GrammarSuite.Action

open Json (Value)

/-! ## Reading a padded number -/

namespace Text

theorem digit?_of_isDigit {c : Char} (h : c.isDigit = true) :
    digit? c = some (c.toNat - '0'.toNat) := by
  obtain ⟨hlow, hhigh⟩ : 48 ≤ c.toNat ∧ c.toNat ≤ 57 := Char.isDigit_iff_toNat.1 h
  -- The zero of this script is the first that is tried.
  rw [digit?, zeros, List.find?_cons_of_pos (by simpa using ⟨hlow, Nat.lt_succ_of_le hhigh⟩)]
  rfl

theorem digits?_of_isDigit {cs : List Char} (h : ∀ c ∈ cs, c.isDigit = true) {before : Bool}
    (hsome : before = true ∨ cs ≠ []) :
    digits? before cs = some (cs.map fun c => c.toNat - '0'.toNat) := by
  induction cs generalizing before with
  | nil =>
    obtain rfl : before = true := by simpa using hsome
    rfl
  | cons c rest ih =>
    rw [List.forall_mem_cons] at h
    have hc : c ≠ '_' := by
      rintro rfl
      exact absurd h.1 (by decide)
    rw [digits?, if_neg hc, digit?_of_isDigit h.1]
    dsimp only
    rw [ih h.2 (.inl rfl)]
    rfl

/-- A run of digits that is not too long is read as its number. -/
theorem natural?_of_isDigit {cs : List Char} (h : ∀ c ∈ cs, c.isDigit = true) (hne : cs ≠ [])
    (hlength : cs.length ≤ digitLimit) : natural? cs = some (Nat.ofDigitChars 10 cs 0) := by
  rw [natural?, digits?_of_isDigit h (.inr hne)]
  simp only [List.length_map, hlength, if_true, List.foldl_map, Nat.ofDigitChars, Nat.mul_comm]

theorem dropWhile_isMargin {cs : List Char} (h : ∀ c ∈ cs, c.isDigit = true) :
    cs.dropWhile isMargin = cs := by
  rw [List.dropWhile_eq_self_iff]
  intro hl
  obtain ⟨hlow, hhigh⟩ : 48 ≤ cs[0].toNat ∧ cs[0].toNat ≤ 57 :=
    Char.isDigit_iff_toNat.1 (h _ (List.getElem_mem hl))
  have hblank : isBlank cs[0] = false := by
    simp only [isBlank, Bool.or_eq_false_iff, Bool.and_eq_false_iff, decide_eq_false_iff_not,
      beq_eq_false_iff_ne]
    omega
  simp [isMargin, hblank]

/-- Digits without a sign are read as their number. -/
theorem integer?_of_isDigit {cs : List Char} (h : ∀ c ∈ cs, c.isDigit = true) (hne : cs ≠ [])
    (hlength : cs.length ≤ digitLimit) :
    integer? (String.ofList cs) = some (Nat.ofDigitChars 10 cs 0 : Int) := by
  have hback : ∀ c ∈ cs.reverse, c.isDigit = true := by simpa using h
  rw [integer?, String.toList_ofList, dropWhile_isMargin h, dropWhile_isMargin hback,
    List.reverse_reverse]
  obtain ⟨c, rest, rfl⟩ := List.exists_cons_of_ne_nil hne
  have hc := (List.forall_mem_cons.1 h).1
  -- A sign in front would be a digit.
  split
  · rename_i heq
    obtain ⟨rfl, -⟩ := List.cons.inj heq
    exact absurd hc (by decide)
  · rename_i heq
    obtain ⟨rfl, -⟩ := List.cons.inj heq
    exact absurd hc (by decide)
  · rw [natural?_of_isDigit h hne hlength]
    rfl

/-- **A padded number is read back**, if it can be written at all. -/
theorem integer?_padded {width n : Nat} (hwidth : width ≤ digitLimit) (hn : n < Value.unwritable) :
    integer? (Instant.padded width n) = some (n : Int) := by
  have hread := Instant.ofDigitChars_padded width n
  have hdigits : ∀ c ∈ (Instant.padded width n).toList, c.isDigit = true :=
    fun c => Instant.isDigit_of_mem_padded
  rw [Instant.padded, String.toList_ofList] at hread hdigits
  have hlength : (Decimal.digits n).length ≤ digitLimit :=
    Decimal.length_digits_le (by decide) hn
  have hpos : 0 < (Decimal.digits n).length := Nat.length_toDigits_pos
  rw [Instant.padded, integer?_of_isDigit hdigits, hread]
  · exact List.append_ne_nil_of_right_ne_nil _ (List.length_pos_iff.1 hpos)
  · rw [List.length_append, List.length_replicate]
    omega

end Text

/-! ## Requests -/

/-- What is labelled: a derivation, a mutation, or an extreme string whose measures are numbers. -/
inductive Origin
  | derivation (d : Derivation) (description : Value := Subject.validDescription)
  | mutation (m : Mutation)
  | extreme (e : Extreme) (h : e.IsMeasured)

def Origin.subject : Origin → Subject
  | .derivation d description => .ofDerivation d description
  | .mutation m => .ofMutation m
  | .extreme e _ => .ofExtreme e

theorem Origin.isProper (o : Origin) : o.subject.IsProper := by
  cases o with
  | derivation d description => exact ⟨⟨d.text, rfl⟩, (Subject.ofDerivation_isProper d).2⟩
  | mutation m => exact Subject.ofMutation_isProper m
  | extreme e h => exact Subject.ofExtreme_isProper h

theorem Origin.forall_isProper {origins : List Origin} :
    ∀ s ∈ origins.map Origin.subject, s.IsProper := by
  intro s hs
  obtain ⟨o, -, rfl⟩ := List.mem_map.1 hs
  exact o.isProper

/-- What may be asked of a session: one case, the cases of a list of one kind, or to start again. -/
inductive Request
  | case (created : Instant) (origin : Origin)
  | valid (created : Instant) (ds : List Derivation)
  | invalid (created : Instant) (ms : List Mutation)
  | extreme (created : Instant) (es : List { e : Extreme // e.IsMeasured })
  | reset

namespace Request

/-- What a request labels. -/
def origins : Request → List Origin
  | case _ origin => [origin]
  | valid _ ds => ds.map fun d => .derivation d
  | invalid _ ms => ms.map .mutation
  | extreme _ es => es.map fun e => .extreme e.1 e.2
  | reset => []

/-- The answer of a session. -/
def answer : Request → Labelling (List TestCase)
  | case created origin => (fun c => [c]) <$> Session.classify (.ok created) origin.subject
  | valid created ds => Session.classifyAll (.ok created) (ds.map (Subject.ofDerivation ·))
  | invalid created ms => Session.classifyAll (.ok created) (ms.map Subject.ofMutation)
  | extreme created es =>
    Session.classifyAll (.ok created) (es.map fun e => Subject.ofExtreme e.1)
  | reset => Action.ofFunction fun s => (.ok [], s.reset)

/-- The single requests that a request stands for. -/
def singles : Request → List Request
  | valid created ds => ds.map fun d => case created (.derivation d)
  | invalid created ms => ms.map fun m => case created (.mutation m)
  | extreme created es => es.map fun e => case created (.extreme e.1 e.2)
  | request => [request]

/-- A single case is a list of one. -/
theorem runOn_answer_case (created : Instant) (origin : Origin) (s : Session) :
    (case created origin).answer.runOn s =
      (Session.classifyAll (.ok created) [origin.subject]).runOn s := by
  rw [answer, Session.classifyAll, runOn_map, runOn_bind]
  rcases (Session.classify (.ok created) origin.subject).runOn s with ⟨m | c, t⟩ <;> rfl

/-- Every request but one labels its origins in their order. -/
theorem runOn_answer {request : Request} (h : request ≠ reset) :
    ∃ created, (∀ s, request.answer.runOn s = (Session.classifyAll (.ok created)
        (request.origins.map Origin.subject)).runOn s) ∧
      request.singles = request.origins.map (case created) := by
  cases request
  case reset => exact absurd rfl h
  case case created origin => exact ⟨created, runOn_answer_case created origin, rfl⟩
  -- A list is mapped once to what is labelled, and once to the single requests.
  all_goals
    rename_i created items
    refine ⟨created, fun s => ?_, ?_⟩
    · rw [origins, List.map_map]
      rfl
    · rw [singles, origins, List.map_map]
      rfl

end Request

/-! ## What remains true of a session -/

/-- A session with the cases that it made since it last started. -/
structure Ledger where
  session : Session
  made : List TestCase := []

namespace Ledger

/-- A session that starts, with the spelling of an identifier. -/
def opened (spelling : String) : Ledger := { session := { identifier := .text spelling } }

/-- A session after a request. A request that fails makes no cases. -/
def perform (l : Ledger) (request : Request) : Ledger :=
  let made := match request with
    | .reset => []
    | _ => l.made
  match request.answer.runOn l.session with
  | (.ok cases, session) => { session, made := made ++ cases }
  | (.error _, session) => { session, made }

/-- A session after a sequence of requests. -/
def performAll (l : Ledger) (requests : List Request) : Ledger := requests.foldl perform l

/-- The number of cases that requests ask for. -/
def demand (requests : List Request) : Nat := (requests.flatMap Request.origins).length

end Ledger

/-- The identifier of a case is its category and a number. The number has four digits at least, with
zeros in front, and is read back. -/
structure TestCase.HasNumber (c : TestCase) (n : Nat) : Prop where
  id : c.id = .text (c.category.name ++ "_" ++ Instant.padded 4 n)
  digits : ∀ d ∈ (Instant.padded 4 n).toList, d.isDigit = true
  length : 4 ≤ (Instant.padded 4 n).length
  read : Text.integer? (Instant.padded 4 n) = some (n : Int)

variable {spelling : String}

theorem Subject.hasNumber_case {s : Subject} {created : Instant} {n : Nat}
    (hn : n < Value.unwritable) : (s.case spelling created n).HasNumber n where
  id := by rw [id_case, category_case]
  digits _ := Instant.isDigit_of_mem_padded
  length := by
    rw [Instant.padded, String.length_ofList, List.length_append, List.length_replicate]
    omega
  read := Text.integer?_padded (by decide) hn

/-- The cases after a number have the numbers after it. -/
theorem Subject.hasNumber_casesAfter (spelling : String) (created : Instant)
    {subjects : List Subject} {n k : Nat} (hn : n + subjects.length < Value.unwritable)
    (hk : k < (casesAfter spelling created n subjects).length) :
    (casesAfter spelling created n subjects)[k].HasNumber (n + k + 1) := by
  induction subjects generalizing n k with
  | nil => cases hk
  | cons s rest ih =>
    rw [List.length_cons] at hn
    cases k with
    | zero => exact hasNumber_case (by omega)
    | succ k =>
      have hrest := ih (n := n + 1) (k := k) (by omega) (Nat.lt_of_succ_lt_succ hk)
      rwa [show n + 1 + k + 1 = n + (k + 1) + 1 by omega] at hrest

namespace Ledger

/-- What remains true of a session: its cases are numbered by their places, and its counter is their
number, unless that has become too long to be written. -/
structure Numbered (spelling : String) (l : Ledger) : Prop where
  identifier : l.session.identifier = .text spelling
  numbers : ∀ k (h : k < l.made.length), l.made[k].HasNumber (k + 1)
  counter : (l.session.counter = .int l.made.length ∧ l.made.length < Value.unwritable) ∨
    ∃ n : Nat, l.session.counter = .int n ∧ Value.unwritable ≤ n

variable {l : Ledger} {request : Request}

theorem opened_numbered (spelling : String) : (opened spelling).Numbered spelling where
  identifier := rfl
  numbers _ h := by cases h
  counter := .inl ⟨rfl, Value.unwritable_pos⟩

theorem perform_of_ne (h : request ≠ .reset) : l.perform request =
    match request.answer.runOn l.session with
    | (.ok cases, session) => ⟨session, l.made ++ cases⟩
    | (.error _, session) => ⟨session, l.made⟩ := by
  cases request
  case reset => exact absurd rfl h
  all_goals rfl

/-- Cases that follow in their numbers follow in their places. -/
theorem hasNumber_append {made : List TestCase} {created : Instant} {subjects : List Subject}
    (hmade : ∀ k (h : k < made.length), made[k].HasNumber (k + 1))
    (hn : made.length + subjects.length < Value.unwritable) (k : Nat)
    (hk : k < (made ++ Subject.casesAfter spelling created made.length subjects).length) :
    (made ++ Subject.casesAfter spelling created made.length subjects)[k].HasNumber (k + 1) := by
  by_cases hbefore : k < made.length
  · rw [List.getElem_append_left hbefore]
    exact hmade k hbefore
  · rw [List.length_append] at hk
    rw [List.getElem_append_right (by omega)]
    have hafter := Subject.hasNumber_casesAfter spelling created hn
      (k := k - made.length) (by omega)
    rwa [show made.length + (k - made.length) + 1 = k + 1 by omega] at hafter

/-- **One request** leaves what is true of a session. -/
theorem perform_numbered (hl : l.Numbered spelling) (request : Request) :
    (l.perform request).Numbered spelling := by
  by_cases hreset : request = .reset
  · subst hreset
    exact ⟨hl.identifier, fun _ h => (nomatch h), .inl ⟨rfl, Value.unwritable_pos⟩⟩
  · obtain ⟨created, hanswer, -⟩ := Request.runOn_answer hreset
    obtain ⟨⟨identifier, counter⟩, made⟩ := l
    obtain ⟨hidentifier, hnumbers, hcounter⟩ := hl
    dsimp only at hidentifier hnumbers hcounter
    subst hidentifier
    rw [perform_of_ne hreset, hanswer]
    dsimp only
    rcases hcounter with ⟨rfl, hn⟩ | ⟨n, rfl, hn⟩ <;>
      rw [Session.classifyAll_of_isProper Origin.forall_isProper]
    · by_cases hfits : made.length + (request.origins.map Origin.subject).length < Value.unwritable
      · rw [if_pos (.inr hfits)]
        refine ⟨rfl, hasNumber_append hnumbers hfits, .inl ?_⟩
        rw [List.length_append, Subject.length_casesAfter]
        exact ⟨rfl, hfits⟩
      · -- Not all numbers can be written, so that nothing is made.
        have hne : request.origins.map Origin.subject ≠ [] := by
          intro hnil
          rw [hnil] at hfits
          exact hfits hn
        rw [if_neg (not_or.2 ⟨hne, hfits⟩)]
        exact ⟨rfl, hnumbers, .inr ⟨_, rfl, Nat.le_max_right _ _⟩⟩
    · -- The counter is too long already, and only a request for nothing is answered.
      by_cases hnil : request.origins.map Origin.subject = []
      · rw [if_pos (.inl hnil), hnil, Subject.casesAfter]
        dsimp only
        rw [List.append_nil]
        exact ⟨rfl, hnumbers, .inr ⟨n, rfl, hn⟩⟩
      · rw [if_neg (by simp only [not_or]; exact ⟨hnil, by omega⟩)]
        exact ⟨rfl, hnumbers, .inr ⟨_, rfl, Nat.le_max_right _ _⟩⟩

/-- **A sequence of requests** leaves it, too. -/
theorem performAll_numbered (requests : List Request) (hl : l.Numbered spelling) :
    (l.performAll requests).Numbered spelling := by
  induction requests generalizing l with
  | nil => exact hl
  | cons request rest ih => exact ih (perform_numbered hl request)

/-- Cases at different places have different identifiers, as they have different numbers. -/
theorem Numbered.nodup (hl : l.Numbered spelling) : (l.made.map TestCase.id).Nodup := by
  rw [List.Nodup, List.pairwise_iff_getElem]
  intro i j hi hj hij heq
  rw [List.getElem_map, List.getElem_map] at heq
  rw [List.length_map] at hi hj
  have hown := TestCase.number_of_id_eq (hl.numbers i hi).id
  have hother := TestCase.number_of_id_eq (heq.trans (hl.numbers j hj).id)
  omega

theorem Numbered.counter_of_isWritable (hl : l.Numbered spelling)
    (h : l.session.counter.isWritable = true) : l.session.counter = .int l.made.length := by
  rcases hl.counter with ⟨hcounter, -⟩ | ⟨n, hcounter, hn⟩
  · exact hcounter
  · rw [hcounter, Value.isWritable, decide_eq_true_iff, Int.natAbs_natCast] at h
    omega

theorem Numbered.session_eq (hl : l.Numbered spelling)
    (hcounter : l.session.counter = .int l.made.length) :
    l.session = ⟨.text spelling, .int l.made.length⟩ := by
  rw [← hl.identifier, ← hcounter]

/-! ## Sessions that count on -/

/-- A session with the cases of further origins. -/
def extended (spelling : String) (created : Instant) (l : Ledger) (origins : List Origin) :
    Ledger where
  session := ⟨.text spelling, .int (l.made.length + origins.length : Nat)⟩
  made := l.made ++ Subject.casesAfter spelling created l.made.length (origins.map Origin.subject)

theorem length_extended (spelling : String) (created : Instant) (l : Ledger)
    (origins : List Origin) :
    (l.extended spelling created origins).made.length = l.made.length + origins.length := by
  rw [extended, List.length_append, Subject.length_casesAfter, List.length_map]

/-- A session with numbers left makes all the cases of a request. -/
theorem answer_of_fits (hl : l.Numbered spelling) (hrequest : request ≠ .reset)
    (hcounter : l.session.counter = .int l.made.length)
    (hfits : l.made.length + request.origins.length < Value.unwritable) :
    ∃ created, (request.answer.runOn l.session).1 = .ok (Subject.casesAfter spelling created
        l.made.length (request.origins.map Origin.subject)) ∧
      l.perform request = l.extended spelling created request.origins ∧
      request.singles = request.origins.map (.case created) := by
  obtain ⟨created, hanswer, hsingles⟩ := Request.runOn_answer hrequest
  have hrun : request.answer.runOn l.session = (.ok (Subject.casesAfter spelling created
      l.made.length (request.origins.map Origin.subject)),
      ⟨.text spelling, .int (l.made.length + request.origins.length : Nat)⟩) := by
    rw [hanswer, hl.session_eq hcounter, Session.classifyAll_runOn Origin.forall_isProper,
      List.length_map]
    rwa [List.length_map]
  refine ⟨created, by rw [hrun], ?_, hsingles⟩
  rw [perform_of_ne hrequest, hrun]
  rfl

/-- Single requests make the cases of their origins. -/
theorem performAll_singles (hl : l.Numbered spelling) (created : Instant) (origins : List Origin)
    (hcounter : l.session.counter = .int l.made.length)
    (hfits : l.made.length + origins.length < Value.unwritable) :
    l.performAll (origins.map (.case created)) = l.extended spelling created origins := by
  induction origins generalizing l with
  | nil =>
    show l = l.extended spelling created []
    rw [extended, List.map_nil, Subject.casesAfter, List.append_nil, List.length_nil, Nat.add_zero,
      ← hl.session_eq hcounter]
  | cons o rest ih =>
    rw [List.length_cons] at hfits
    -- The first case leaves a session that has numbers for the others.
    obtain ⟨created', hanswer, hfirst, hsingles⟩ := answer_of_fits hl
      (show Request.case created o ≠ .reset by simp) hcounter
      (by rw [Request.origins, List.length_singleton]; omega)
    obtain rfl : created = created' := by simpa [Request.singles, Request.origins] using hsingles
    have hlength := length_extended spelling created l [o]
    have hnumbered := perform_numbered hl (.case created o)
    rw [hfirst, Request.origins] at hnumbered
    have hrest := ih hnumbered (by rw [hlength, extended])
      (by rw [hlength, List.length_singleton]; omega)
    rw [List.map_cons, performAll, List.foldl_cons, hfirst]
    refine hrest.trans ?_
    rw [extended, hlength, extended, extended, List.append_assoc, List.length_singleton,
      List.length_cons, List.map_singleton, List.map_cons, Nat.add_assoc, Nat.add_comm 1]
    rfl

/-- A session that is asked for few enough cases counts all of them. -/
theorem counter_of_demand (hl : l.Numbered spelling)
    (hcounter : l.session.counter = .int l.made.length) {requests : List Request}
    (hdemand : l.made.length + demand requests < Value.unwritable) :
    (l.performAll requests).session.counter = .int (l.performAll requests).made.length := by
  induction requests generalizing l with
  | nil => exact hcounter
  | cons request rest ih =>
    rw [demand, List.flatMap_cons, List.length_append, ← demand] at hdemand
    by_cases hreset : request = .reset
    · subst hreset
      have hrest : 0 + demand rest < Value.unwritable := by omega
      exact ih (perform_numbered hl .reset) rfl hrest
    · obtain ⟨created, -, hperform, -⟩ := answer_of_fits hl hreset hcounter (by omega)
      have hlength := length_extended spelling created l request.origins
      refine ih (perform_numbered hl request) ?_ ?_
      · rw [hperform, hlength, extended]
      · rw [hperform, hlength]
        omega

/-- **The identifiers of a session.** Whatever a session was asked for, the cases that it made since
it last started have the numbers of their places and different identifiers. The counter is the
number of these cases, as long as it can be written; and until then every request is answered, a
list as its items one by one. -/
theorem identifiers_of_requests (spelling : String) (requests : List Request) :
    let l := (opened spelling).performAll requests
    (∀ k (h : k < l.made.length), l.made[k].HasNumber (k + 1)) ∧
      (l.made.map TestCase.id).Nodup ∧
      (l.session.counter.isWritable = true → l.session.counter = .int l.made.length) ∧
      (demand requests < Value.unwritable → l.session.counter = .int l.made.length) ∧
      l.perform .reset = opened spelling ∧
      ∀ request, request ≠ .reset → l.session.counter = .int l.made.length →
        l.made.length + request.origins.length < Value.unwritable →
          (∃ cases, (request.answer.runOn l.session).1 = .ok cases ∧
            (l.perform request).made = l.made ++ cases ∧
            cases.map TestCase.category = request.origins.map (·.subject.category)) ∧
          l.perform request = l.performAll request.singles := by
  intro l
  have hl : l.Numbered spelling := performAll_numbered requests (opened_numbered spelling)
  refine ⟨hl.numbers, hl.nodup, hl.counter_of_isWritable, fun hdemand => ?_, ?_, ?_⟩
  · exact counter_of_demand (opened_numbered spelling) rfl (by simpa [opened] using hdemand)
  · -- A session that starts again keeps only the spelling.
    show (⟨l.session.reset, [] ++ []⟩ : Ledger) = opened spelling
    rw [Session.reset, hl.identifier]
    rfl
  · intro request hrequest hcounter hfits
    obtain ⟨created, hanswer, hperform, hsingles⟩ := answer_of_fits hl hrequest hcounter hfits
    refine ⟨⟨_, hanswer, by rw [hperform, extended], ?_⟩, ?_⟩
    · rw [Subject.map_category_casesAfter, List.map_map]
      rfl
    · rw [hsingles, performAll_singles hl created request.origins hcounter hfits, hperform]

/-- A sum that lost an operand. -/
def loosePlus : Mutation := ⟨"id +", .missingOperand, "Missing identifier", "id + id"⟩

/-- A new session that is asked for a list of one mutation makes its first case, as it does when it
is asked for the mutation alone. -/
theorem identifiers_of_mutation :
    let created : Instant :=
      { year := 2024, month := 1, day := 1, hour := 0, minute := 0, second := 0 }
    ∃ c, ((opened "id").perform (.invalid created [loosePlus])).made = [c] ∧
      c.category = .invalid ∧ c.HasNumber 1 ∧
      (opened "id").perform (.invalid created [loosePlus]) =
        (opened "id").performAll [.case created (.mutation loosePlus)] := by
  intro created
  have hnew : (opened "id").made = [] := rfl
  -- The session is followed from its start, and then after the request.
  obtain ⟨-, -, -, -, -, hrequests⟩ := identifiers_of_requests "id" []
  obtain ⟨hnumbers, -⟩ := identifiers_of_requests "id" [.invalid created [loosePlus]]
  simp only [performAll, List.foldl_cons, List.foldl_nil] at hrequests hnumbers
  obtain ⟨⟨cases, -, hmade, hcategories⟩, hsingles⟩ :=
    hrequests (.invalid created [loosePlus]) (by simp) rfl
      (by rw [hnew, Request.origins]; exact Value.one_lt_unwritable)
  obtain ⟨c, rfl, hcategory⟩ := List.map_eq_singleton_iff.1 hcategories
  rw [hnew, List.nil_append] at hmade
  have hnumber := hnumbers 0 (by rw [hmade]; exact Nat.zero_lt_one)
  refine ⟨c, hmade, hcategory, ?_, hsingles⟩
  simpa only [hmade, List.getElem_cons_zero] using hnumber

end Ledger

end GrammarSuite
