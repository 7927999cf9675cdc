import Ratchet.Instant
import Ratchet.Number.Reading

/-!
Instants read from text and from numbers.

A text is a date, or a date and a time with a letter, a space or a low line between them, an optional
fraction of a second and an optional offset. A number counts seconds, or milliseconds when it is too
large for seconds, on the clock of universal time. The readers know the year before the first one of the
calendar, too.
-/

namespace Ratchet.Instant

/-- `n` basic digits at the start, their value and the rest. -/
def digits? (n : Nat) (s : List Char) : Option (Int × List Char) :=
  let ds := s.take n
  if ds.length == n && ds.all Char.isDigit then some ((Text.digitsValue ds : Nat), s.drop n) else none

/-- The rest after one of the given characters. -/
def after? (marks : List Char) : List Char → Option (List Char)
  | c :: r => if marks.contains c then some r else none
  | [] => none

/-- A date at the start, in days after the start of 1970. -/
def dateOf? (s : List Char) : Option (Int × List Char) := do
  let (y, s) ← digits? 4 s
  let s ← after? ['-'] s
  let (m, s) ← digits? 2 s
  let s ← after? ['-'] s
  let (d, s) ← digits? 2 s
  if hasDay y m d then some (daysOfDate y m d, s) else none

/-- Microseconds from the digits after a point; digits beyond the sixth are dropped. -/
def microsOf (ds : List Char) : Int :=
  (Text.digitsValue ((ds ++ List.replicate 6 '0').take 6) : Nat)

/-- Seconds and a fraction after the minutes, if they are there. -/
def secondsOf? (s : List Char) : Option (Int × List Char) :=
  match s with
  | ':' :: r => do
    let (sec, r) ← digits? 2 r
    guard (sec < 60)
    match r with
    | c :: t =>
      if c == '.' || c == ',' then
        let ds := t.takeWhile Char.isDigit
        if ds.isEmpty then none
        else some (sec * second + microsOf ds, t.dropWhile Char.isDigit)
      else some (sec * second, r)
    | [] => some (sec * second, [])
  | _ => some (0, s)

/-- An offset that takes up the whole text, in seconds. -/
def offsetOf? (s : List Char) : Option (Option Int) :=
  match s with
  | [] => some none
  | ['Z'] | ['z'] => some (some 0)
  | c :: r => do
    let negative ← if c == '+' then some false else if c == '-' || c == '\u2212' then some true else none
    let (h, r) ← digits? 2 r
    let r := match r with
      | ':' :: t => t
      | _ => r
    let (m, r) ← digits? 2 r
    guard (r.isEmpty && h < 24 && m < 60)
    let n := h * 3600 + m * 60
    some (some (if negative then -n else n))

/-- A time of the day with an optional offset that takes up the whole text. -/
def timeOf? (s : List Char) : Option (Int × Option Int) := do
  let (h, s) ← digits? 2 s
  let s ← after? [':'] s
  let (m, s) ← digits? 2 s
  guard (h < 24 && m < 60)
  let (sec, s) ← secondsOf? s
  let offset ← offsetOf? s
  return ((h * 3600 + m * 60) * second + sec, offset)

/-- A date with a time. -/
def dateTimeOf? (s : List Char) : Option Instant := do
  let (days, s) ← dateOf? s
  let s ← after? ['T', 't', ' ', '_'] s
  let (time, offset) ← timeOf? s
  return ⟨days * day + time, offset⟩

/-- A number of seconds above which a number counts milliseconds. -/
def secondsLimit : Nat := 20000000000

/-- The instant of a reading in universal time, in the calendar or in the year before it. -/
def ofReading? (micros : Int) : Option Instant :=
  if daysOfDate 0 1 1 * day ≤ micros && micros < endReading then some (ofUniversal micros) else none

/-- The instant of a whole number. -/
def ofInt? (n : Int) : Option Instant :=
  ofReading? (if n.natAbs ≤ secondsLimit then n * second else n * 1000)

/-- The instant of a decimal number: its seconds, rounded down, and what is left of them to the nearest
microsecond, a half going up. -/
def ofFloat? (x : Float) : Option Instant := do
  let seconds := if Number.ofInt secondsLimit < x.abs then x / 1000 else x
  let whole ← Number.truncate? seconds.floor
  let micros ← Number.truncate? ((seconds - Number.ofInt whole) * 1000000).round
  ofReading? (whole * second + micros)

/-- The instant of a number in a text: a sign, if there is one, and digits that fit into a word, or a
decimal whose digits before the point do. -/
def ofNumberText? (s : List Char) : Option Instant :=
  let (negative, r) := Number.sign s
  let ds := r.takeWhile Char.isDigit
  if Number.twoTo 63 ≤ Text.digitsValue ds then none
  else match r.drop ds.length with
    | [] => if ds.isEmpty then none else ofInt? (Number.signed negative (Text.digitsValue ds))
    | c :: t =>
      if c == '.' && t.all (·.toNat < 0x80) then (Number.decimal? negative r).bind ofFloat? else none

/-- The instant of a text: a date with a time, a date alone, which means its start, or a number. -/
def ofText? (s : String) : Option Instant :=
  let cs := s.toList
  match dateTimeOf? cs with
  | some i => some i
  | none =>
    match dateOf? cs with
    | some (days, []) => some ⟨days * day, none⟩
    | _ => ofNumberText? cs

end Ratchet.Instant
