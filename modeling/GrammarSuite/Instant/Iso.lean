import GrammarSuite.Instant
import GrammarSuite.Text.Quoted

/-!
# Moments in texts

A moment as a text by the standard for dates and times: a date by month and day, or by week and day
of the week, and behind one more character the time of day and its offset from universal time. The
parts of a date, and those of a time, have separators between all of them or between none. A time
may end behind its hour or its minute, and a fraction may stand behind its last part, of which six
digits count.

A text is read place by place, and a character takes as many places as its UTF-8 form has bytes. A
null character ends a text wherever an end is looked for. Where an offset follows, a time may have
more behind its parts, which is passed over.

## Main definitions

* `Instant.Fault`: why a text stands for no moment
* `Instant.dateOf?`, `Instant.timeOf?`, `Instant.offsetOf?`: the parts of a moment
* `Instant.ofIso`: the moment of a text

## Main statements

* `number?_append`: a run of digits is read up to its end, and the rest is handed on
* `checked_eq_ok`: a moment passes the check exactly if all its parts are in their ranges
-/

namespace GrammarSuite.Instant

/-- Why a text stands for no moment. -/
inductive Fault
  | unreadable (text : String)
  | badYear (year : Nat)
  | badMonth
  | badDay
  | badHour
  | badMinute
  | badSecond
  /-- An offset of a day or more. -/
  | badOffset (microseconds : Int)
  deriving DecidableEq, Repr

/-- A span of time by its days, seconds and microseconds, of which only the days are negative. -/
def spanText (microseconds : Int) : String :=
  let part (name : String) (n : Int) : List String :=
    if n = 0 then [] else [name ++ "=" ++ toString n]
  let parts := part "days" (microseconds / 86400000000) ++
    part "seconds" (microseconds / 1000000 % 86400) ++
    part "microseconds" (microseconds % 1000000)
  "datetime.timedelta(" ++ (if parts.isEmpty then "0" else ", ".intercalate parts) ++ ")"

/-- The wording of a fault. -/
def Fault.message : Fault → String
  | unreadable text => "Invalid isoformat string: " ++ Text.quoted text
  | badYear n => "year " ++ toString n ++ " is out of range"
  | badMonth => "month must be in 1..12"
  | badDay => "day is out of range for month"
  | badHour => "hour must be in 0..23"
  | badMinute => "minute must be in 0..59"
  | badSecond => "second must be in 0..59"
  | badOffset n =>
    "offset must be a timedelta strictly between -timedelta(hours=24) and timedelta(hours=24), " ++
      "not " ++ spanText n ++ "."

/-! ## The calendar -/

/-- Whether a year has a day more than others. -/
def isLeap (year : Nat) : Bool := year % 4 == 0 && (year % 100 != 0 || year % 400 == 0)

/-- The number of days of a month. -/
def daysInMonth (year month : Nat) : Nat :=
  if month = 2 then if isLeap year then 29 else 28
  else if month = 4 ∨ month = 6 ∨ month = 9 ∨ month = 11 then 30
  else 31

/-- The number of days of a year. -/
def daysInYear (year : Nat) : Nat := if isLeap year then 366 else 365

/-- The day of the week of the first day of a year; Monday is zero. -/
def firstWeekday (year : Nat) : Nat :=
  let before := year - 1
  (before * 365 + before / 4 - before / 100 + before / 400) % 7

/-- The month and its day of a day of a year, both counted from the start: days from zero, and
months from a first one. -/
def monthAndDay (year day : Nat) : Nat → Nat → Nat × Nat
  | _, 0 => (12, day + 1)
  | month, left + 1 =>
    if day < daysInMonth year month then (month, day + 1)
    else monthAndDay year (day - daysInMonth year month) (month + 1) left

/-- The date of a day that is counted from the first day of a year, from some days before it up to
some days behind the end of the year. -/
def dateOfDay (year : Nat) (day : Int) : Nat × Nat × Nat :=
  let (year, day) : Nat × Int :=
    if day < 0 then (year - 1, day + daysInYear (year - 1))
    else if daysInYear year ≤ day then (year + 1, day - daysInYear year)
    else (year, day)
  (year, monthAndDay year day.toNat 1 11)

/-- Whether a year has a week more than others. -/
def hasLongYear (year : Nat) : Bool :=
  firstWeekday year == 3 || (firstWeekday year == 2 && isLeap year)

/-- The date of a day of a week. The first week of a year is that of its first Thursday. The weeks
of the year zero have no months. -/
def dateOfWeek? (year week weekday : Nat) : Option (Nat × Nat × Nat) :=
  if week = 0 ∨ 53 < week ∨ (week = 53 ∧ (year = 0 ∨ !hasLongYear year)) then none
  else if weekday = 0 ∨ 7 < weekday then none
  else if year = 0 then some (1, 0, 0)
  else
    let first : Int := firstWeekday year
    let monday := if 3 < first then 7 - first else -first
    some (dateOfDay year (monday + ((week - 1) * 7 + (weekday - 1) : Nat)))

/-! ## Dates -/

/-- The number of a run of digits of a given width. -/
def number? (width : Nat) (s : List Char) : Option (Nat × List Char) :=
  let ds := s.take width
  if ds.length = width ∧ ds.all Char.isDigit then
    some (ds.foldl (fun n d => n * 10 + (d.toNat - 48)) 0, s.drop width)
  else none

/-- A run of digits is read up to its end, and the rest is handed on. -/
theorem number?_append {ds rest : List Char} (h : ∀ c ∈ ds, c.isDigit) :
    number? ds.length (ds ++ rest) =
      some (ds.foldl (fun n d => n * 10 + (d.toNat - 48)) 0, rest) := by
  have hd : ds.all Char.isDigit := List.all_eq_true.2 h
  simp [number?, hd]

/-- The text behind a character. -/
def after? (c : Char) : List Char → Option (List Char)
  | [] => none
  | d :: rest => if d = c then some rest else none

/-- A separator in front, if parts are separated. -/
def skip? (separated : Bool) (c : Char) (s : List Char) : Option (List Char) :=
  if separated then after? c s else some s

/-- The date of a text. -/
def dateOf? (s : List Char) : Option (Nat × Nat × Nat) := do
  let (year, s) ← number? 4 s
  let separated := s.head? == some '-'
  let s := if separated then s.drop 1 else s
  if s.head? == some 'W' then
    let (week, s) ← number? 2 (s.drop 1)
    if s.isEmpty then dateOfWeek? year week 1
    else
      let (weekday, s) ← number? 1 (← skip? separated '-' s)
      if s.isEmpty then dateOfWeek? year week weekday else none
  else
    let (month, s) ← number? 2 s
    let (day, s) ← number? 2 (← skip? separated '-' s)
    if s.isEmpty then some (year, month, day) else none

/-- Where the date ends in a text that goes on with a time. A date by a week may end behind the week
or behind the day, which the digits behind it decide. -/
def dateSize (s : List Char) : Nat :=
  if s.length = 7 then 7
  else if s[4]? == some '-' then
    if s[5]? == some 'W' then
      if s[8]? == some '-' ∧ !(s[10]?.any Char.isDigit) then 10 else 8
    else 10
  else if s[4]? == some 'W' then
    let digits := ((s.drop 7).takeWhile Char.isDigit).length
    if digits < 2 then 7 + digits else if digits % 2 = 1 then 7 else 8
  else 8

/-! ## Times -/

/-- Whether a text ends. -/
def isEnd : List Char → Bool
  | [] => true
  | c :: _ => c = '\x00'

/-- What is read of a time of day. -/
structure Reading where
  /-- The hour, the minute and the second, as far as they are there. -/
  parts : List Nat
  microsecond : Nat := 0
  /-- Whether the text ends behind the time. -/
  ends : Bool

/-- A time with the fraction that stands in a number of places, of which six count. -/
def fractionOf? (parts : List Nat) (size : Nat) (s : List Char) : Option Reading := do
  let width := min size 6
  let (n, s) ← number? width s
  some {
    parts
    microsecond := n * Decimal.tenPow (6 - width)
    ends := isEnd (s.dropWhile Char.isDigit) }

/-- The parts of a time behind some that are read: two digits each, of which there may be some
more, and a fraction. The time stands in a number of places. -/
def partsOf? (separated : Bool) : Nat → List Nat → Nat → List Char → Option Reading
  | 0, parts, size, s => fractionOf? parts size s
  | more + 1, parts, size, s => do
    let (n, s) ← number? 2 s
    let parts := parts ++ [n]
    if size ≤ 3 then some { parts, ends := isEnd s }
    else match s with
      | [] => none
      | c :: rest =>
        if separated ∧ c = ':' then partsOf? separated more parts (size - 3) rest
        else if c = '.' ∨ c = ',' then fractionOf? parts (size - 3) rest
        else if separated then none
        else partsOf? separated more parts (size - 2) s

/-- The time that stands in a number of places. -/
def timeOf? (size : Nat) (s : List Char) : Option Reading :=
  partsOf? (s[2]? == some ':') 3 [] size s

/-- The seconds of a time, counted from its start. -/
def Reading.seconds (r : Reading) : Nat :=
  (r.parts.getD 0 0 * 60 + r.parts.getD 1 0) * 60 + r.parts.getD 2 0

/-- The microseconds of an offset from universal time, from its sign. An offset below one second is
none. -/
def offsetOf? (s : List Char) : Option Int := do
  match s with
  | [] => none
  | sign :: rest =>
    if sign = 'Z' then if isEnd rest then some 0 else none
    else
      let r ← timeOf? rest.length rest
      let n : Int := if r.seconds = 0 then 0 else (r.seconds * 1000000 + r.microsecond : Nat)
      if r.ends then some (if sign = '-' then -n else n) else none

/-- Whether a character starts an offset. -/
def startsOffset (c : Char) : Bool := c = '+' || c = '-' || c = 'Z'

/-- The moment of a date at a time, whose parts may be out of their ranges. -/
def atTime? (date : Nat × Nat × Nat) (s : List Char) : Option Instant := do
  let (year, month, day) := date
  let size := (s.takeWhile fun c => !startsOffset c).length
  let r ← timeOf? size s
  let zone := s.drop size
  let offset ← if !zone.isEmpty then (offsetOf? zone).map some
    else if r.ends then some none else none
  some {
    year, month, day, offset
    hour := r.parts.getD 0 0
    minute := r.parts.getD 1 0
    second := r.parts.getD 2 0
    microsecond := r.microsecond }

/-! ## Moments -/

/-- The half of a UTF-16 pair that may stand behind a date: the first one in a place for it. -/
def separatingHalf (points : List Nat) : Option Nat :=
  [7, 8, 10].find? fun i => points[i]?.any Text.isHalf

/-- The places of a text, whose characters are all known. -/
def places? (text : String) : Option (List Char) :=
  let points := Text.points text
  let points := match separatingHalf points with
    | some i => points.set i 'T'.toNat
    | none => points
  if points.length < 7 ∨ points.any Text.isHalf then none
  else some (points.flatMap fun n => List.replicate (Char.ofNat n).utf8Size (Char.ofNat n))

/-- The moment of a text, whose parts may be out of their ranges. A date alone stands for its
start. -/
def read? (text : String) : Option Instant := do
  let s ← places? text
  let (year, month, day) ← dateOf? (s.take (dateSize s))
  match s.drop (dateSize s) with
  | [] => some { year, month, day, hour := 0, minute := 0, second := 0 }
  | c :: rest => atTime? (year, month, day) (rest.drop (c.utf8Size - 1))

/-- A moment, if its parts are in their ranges. -/
def checked (i : Instant) : Except Fault Instant :=
  if 86400000000 ≤ (i.offset.getD 0).natAbs then .error (.badOffset (i.offset.getD 0))
  else if i.year = 0 ∨ 9999 < i.year then .error (.badYear i.year)
  else if i.month = 0 ∨ 12 < i.month then .error .badMonth
  else if i.day = 0 ∨ daysInMonth i.year i.month < i.day then .error .badDay
  else if 24 ≤ i.hour then .error .badHour
  else if 60 ≤ i.minute then .error .badMinute
  else if 60 ≤ i.second then .error .badSecond
  else .ok i

/-- A moment passes the check exactly if all its parts are in their ranges. -/
theorem checked_eq_ok {i j : Instant} : checked i = .ok j ↔
    j = i ∧ (i.offset.getD 0).natAbs < 86400000000 ∧ (0 < i.year ∧ i.year ≤ 9999) ∧
      (0 < i.month ∧ i.month ≤ 12) ∧ (0 < i.day ∧ i.day ≤ daysInMonth i.year i.month) ∧
      i.hour < 24 ∧ i.minute < 60 ∧ i.second < 60 := by
  constructor
  · intro h
    unfold checked at h
    repeat' split at h
    all_goals cases h
    exact ⟨rfl, by omega⟩
  · rintro ⟨rfl, ho, hy, hm, hd, hh, hn, hs⟩
    rw [checked, if_neg (by omega), if_neg (by omega), if_neg (by omega), if_neg (by omega),
      if_neg (by omega), if_neg (by omega), if_neg (by omega)]

/-- The moment of a text. -/
def ofIso (text : String) : Except Fault Instant :=
  match read? text with
  | none => .error (.unreadable text)
  | some i => checked i

end GrammarSuite.Instant
