import Ratchet.Number.Rounding

/-!
Points in time.

An instant is a calendar reading in whole microseconds together with the offset of its clock from
universal time, if it has one. Two instants with an offset are compared by the universal time that
they denote; an instant without one can be compared only with its like.
-/

namespace Ratchet

/-- A calendar reading, in microseconds after the start of 1970 on its own clock, and the offset of
that clock in seconds east of universal time. -/
structure Instant where
  reading : Int
  offset : Option Int
  deriving DecidableEq, Repr

namespace Instant

/-- Microseconds in a second. -/
def second : Int := 1000000

/-- Microseconds in a day. -/
def day : Int := 86400 * second

/-- The days from the start of 1970 to a date. -/
def daysOfDate (y m d : Int) : Int :=
  let y := if m ≤ 2 then y - 1 else y
  let era := Int.fdiv y 400
  let yoe := y - era * 400
  let doy := (153 * (if m > 2 then m - 3 else m + 9) + 2) / 5 + d - 1
  let doe := yoe * 365 + yoe / 4 - yoe / 100 + doy
  era * 146097 + doe - 719468

/-- The date that many days after the start of 1970, as year, month and day. -/
def dateOfDays (n : Int) : Int × Int × Int :=
  let z := n + 719468
  let era := Int.fdiv z 146097
  let doe := z - era * 146097
  let yoe := (doe - doe / 1460 + doe / 36524 - doe / 146096) / 365
  let doy := doe - (365 * yoe + yoe / 4 - yoe / 100)
  let mp := (5 * doy + 2) / 153
  let d := doy - (153 * mp + 2) / 5 + 1
  let m := if mp < 10 then mp + 3 else mp - 9
  (yoe + era * 400 + (if m ≤ 2 then 1 else 0), m, d)

/-- Whether a year has a twenty-ninth of February. -/
def isLeap (y : Int) : Bool := y % 4 == 0 && (y % 100 != 0 || y % 400 == 0)

/-- The number of days of a month. -/
def monthDays (y m : Int) : Int :=
  if m == 2 then (if isLeap y then 29 else 28)
  else if m == 4 || m == 6 || m == 9 || m == 11 then 30 else 31

/-- Whether a year, whichever it is, has a day in a month. -/
def hasDay (y m d : Int) : Bool := 1 ≤ m && m ≤ 12 && 1 ≤ d && d ≤ monthDays y m

/-- The first reading of the calendar, which has the years 1 to 9999. -/
def firstReading : Int := daysOfDate 1 1 1 * day

/-- The reading just after the last one of the calendar. -/
def endReading : Int := (daysOfDate 9999 12 31 + 1) * day

/-- Whether a reading lies in the calendar. -/
def inCalendar (reading : Int) : Bool := firstReading ≤ reading && reading < endReading

/-- The universal time of an instant with an offset, in microseconds. -/
def universal (i : Instant) : Int := i.reading - i.offset.getD 0 * second

/-- Whether both instants have an offset or neither has. -/
def comparable (i j : Instant) : Bool := i.offset.isSome == j.offset.isSome

/-- An instant on the clock of universal time. -/
def ofUniversal (micros : Int) : Instant := ⟨micros, some 0⟩

/-- Year, month, day, hour, minute, second and microsecond of the reading. -/
def fields (i : Instant) : Int × Int × Int × Int × Int × Int × Int :=
  let days := Int.fdiv i.reading day
  let rest := i.reading - days * day
  let (y, m, d) := dateOfDays days
  (y, m, d, rest / (3600 * second), rest / (60 * second) % 60, rest / second % 60, rest % second)

/-- A calendar field in at least `width` digits. -/
def field (width : Nat) (n : Int) : List Char := Number.padded width n.toNat

/-- Date and time of the reading; microseconds stand only when there are any. -/
def readingText (i : Instant) : List Char :=
  let (y, mo, d, h, mi, s, us) := i.fields
  field 4 y ++ '-' :: field 2 mo ++ '-' :: field 2 d ++ 'T' :: field 2 h ++ ':' :: field 2 mi ++
    ':' :: field 2 s ++ (if us == 0 then [] else '.' :: field 6 us)

/-- An offset as sign, hours and minutes. -/
def offsetText (seconds : Int) : List Char :=
  let n := seconds.natAbs
  (if seconds < 0 then '-' else '+') :: Number.padded 2 (n / 3600) ++ ':' :: Number.padded 2 (n / 60 % 60)

/-- The text of an instant in a document: universal time is marked by `Z`. -/
def text (i : Instant) : String :=
  String.ofList (i.readingText ++ match i.offset with
    | none => []
    | some 0 => ['Z']
    | some s => offsetText s)

/-- The text of an instant in a listing: universal time has the offset `+00:00`. -/
def listingText (i : Instant) : String :=
  String.ofList (i.readingText ++ match i.offset with
    | none => []
    | some s => offsetText s)

/-- The text of an instant inside a backup's name: date and time without separators. -/
def stamp (i : Instant) : String :=
  let (y, mo, d, h, mi, s, us) := i.fields
  String.ofList (field 4 y ++ field 2 mo ++ field 2 d ++ 'T' :: field 2 h ++ field 2 mi ++ field 2 s ++
    field 6 us ++ ['Z'])

/-- The date of the reading without separators. -/
def dateStamp (i : Instant) : String :=
  let (y, mo, d, _) := i.fields
  String.ofList (field 4 y ++ field 2 mo ++ field 2 d)

/-- A span of seconds as it is written out, in days and seconds. -/
def spanText (seconds : Int) : String :=
  let days := Int.fdiv seconds 86400
  let rest := seconds - days * 86400
  let parts := (if days == 0 then [] else ["days=" ++ toString days]) ++
    (if rest == 0 then [] else ["seconds=" ++ toString rest])
  "datetime.timedelta(" ++ (if parts.isEmpty then "0" else ", ".intercalate parts) ++ ")"

end Instant

end Ratchet
