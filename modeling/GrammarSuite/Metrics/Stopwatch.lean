import GrammarSuite.Action
import GrammarSuite.Json.Misuse

/-!
# Stopwatches

The time that something takes, by a clock whose readings are given beforehand. A reading may be the
fault of the value that stands for it, which is met when the clock is read.

## Main definitions

* `Clock`: the readings to come
* `Stopwatch`: the readings at start and stop, and the clock
* `Stopwatch.start`, `Stopwatch.stop`, `Stopwatch.elapsed`: starting, stopping, and the milliseconds
* `Stopwatch.around`: an action between start and stop

## Main statements

* `elapsed_of_ended`: between start and stop the milliseconds are known without a reading
-/

namespace GrammarSuite

open Json (Misuse)

/-- The readings of a clock to come, in seconds; the last one repeats. -/
structure Clock where
  readings : List (Except Misuse Float)

namespace Clock

/-- A clock with given readings. -/
def ofReadings (xs : List Float) : Clock := ⟨xs.map .ok⟩

/-- The next reading, and the clock after it. -/
def read (c : Clock) : Except Misuse Float × Clock :=
  match c.readings with
  | [] => (.error .noItem, c)
  | [x] => (x, c)
  | x :: rest => (x, ⟨rest⟩)

end Clock

/-- The readings at start and stop, and the clock that they are taken from. -/
structure Stopwatch where
  clock : Clock
  startTime : Option Float := none
  endTime : Option Float := none

namespace Stopwatch

/-- An action on a stopwatch. -/
abbrev Timing (α : Type) := Action Stopwatch Misuse α

/-- Reads the clock. -/
def reading : Timing Float := Action.ofFunction fun w =>
  let (x, clock) := w.clock.read
  (x, { w with clock })

/-- Starts, also when running. -/
def start : Timing Unit := do
  let x ← reading
  modify fun w => { w with startTime := some x, endTime := none }

/-- The report of a stop without a start. -/
def neverStarted : String := "Timer was never started"

/-- Stops, and returns whether it was started; without a start it reads no clock. -/
def stop : Timing Bool := do
  if (← get).startTime.isNone then pure false
  else
    let x ← reading
    modify fun w => { w with endTime := some x }
    pure true

/-- The milliseconds from start to stop, or up to now if it is running. -/
def elapsed : Timing Float := do
  let w ← get
  match w.startTime with
  | none => pure 0.0
  | some s =>
    let e ← match w.endTime with
      | some e => pure e
      | none => reading
    pure ((e - s) * 1000.0)

/-- An action between start and stop. It is stopped also where the action fails; if it cannot be
stopped, that is the failure. -/
def around {α : Type} (x : Timing α) : Timing α := do
  start
  let result ← x.outcome
  let _ ← stop
  match result with
  | .ok a => pure a
  | .error m => throw m

/-- Between start and stop the milliseconds are known without a reading. -/
theorem elapsed_of_ended {w : Stopwatch} {s e : Float} (hs : w.startTime = some s)
    (he : w.endTime = some e) : elapsed.runOn w = (.ok ((e - s) * 1000.0), w) := by
  simp [elapsed, Action.runOn_bind, hs, he]

end Stopwatch

end GrammarSuite
