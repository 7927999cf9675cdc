import Ratchet.Datum
import Ratchet.Fault

/-!
Spans of time in whole microseconds.

A number of days or seconds becomes a span when its whole part is multiplied exactly and its fraction
is rounded by itself, a half to the even neighbour. A span has fewer than a milliard days.
-/

namespace Ratchet.Span

/-- The microseconds of a number of units. -/
def micros? (unit : Int) (x : Float) : Option Int := do
  let whole ← Number.truncate? x
  let rest := (x - Number.ofInt whole) * Number.ofInt unit
  let part ← Number.truncate? rest
  let last ← Number.truncate? (Number.roundTo 0 (rest - Number.ofInt part))
  let sum := whole * unit + part
  let tie := (rest - Number.ofInt part).abs == 0.5
  return if tie then (if part % 2 == 0 then sum else sum + (if rest < 0 then -1 else 1)) else sum + last

/-- The greatest number of days of a span. -/
def maxDays : Int := 999999999

/-- A span of so many microseconds. -/
def ofMicros (n : Int) : Except Fault Int :=
  let days := Int.fdiv n Instant.day
  if days.natAbs ≤ maxDays.toNat then .ok n
  else .error (.overflow ("days=" ++ toString days ++ "; must have magnitude <= 999999999"))

/-- The span of a number of units. -/
def ofFloat (unit : Int) (x : Float) : Except Fault Int :=
  match micros? unit x with
  | some n => ofMicros n
  | none =>
    if x.isNaN then .error (.value "cannot convert float NaN to integer")
    else .error (.overflow "cannot convert float infinity to integer")

/-- The instant that lies a span before another. -/
def before (i : Instant) (span : Int) : Except Fault Instant :=
  if Instant.inCalendar (i.reading - span) then .ok { i with reading := i.reading - span }
  else .error (.overflow "date value out of range")

end Ratchet.Span
