import Ratchet.Log.Template
import Ratchet.World

/-!
The log.

An entry is one line: its time to the second, its level, who made it and where, and its message. On a
console the line is coloured by its level. Setting up the log says which entries are kept and where
they go: to the console, and to a file that is named for the day.
-/

namespace Ratchet.Log

/-- An entry of the log. -/
structure Entry where
  logger : String
  level : Int
  line : Int
  message : String
  time : Instant
  deriving DecidableEq, Repr

/-- The name of a level. -/
def levelName (level : Int) : String :=
  if level == 50 then "CRITICAL"
  else if level == 40 then "ERROR"
  else if level == 30 then "WARNING"
  else if level == 20 then "INFO"
  else if level == 10 then "DEBUG"
  else if level == 0 then "NOTSET"
  else "Level " ++ toString level

/-- The level of entries for those who look for a mistake. -/
def debugLevel : Int := 10

/-- How a console is told to colour an entry of a level. -/
def colour? (level : Int) : Option String :=
  if level == 10 then some "\x1b[36m"
  else if level == 20 then some "\x1b[32m"
  else if level == 30 then some "\x1b[33m"
  else if level == 40 then some "\x1b[31m"
  else if level == 50 then some "\x1b[31;1m"
  else none

/-- How a console is told to end a colour. -/
def colourEnd : String := "\x1b[0m"

namespace Entry

/-- The date and the time to the second. The year has as many digits as it needs. -/
def timeText (t : Instant) : String :=
  let seconds := Int.fdiv t.reading Instant.second
  let (y, m, d) := Instant.dateOfDays (Int.fdiv seconds 86400)
  let s := Int.emod seconds 86400
  let two (n : Int) : String := String.ofList (Instant.field 2 n)
  toString y ++ "-" ++ two m ++ "-" ++ two d ++ " " ++
    two (s / 3600) ++ ":" ++ two (s / 60 % 60) ++ ":" ++ two (s % 60)

/-- A text with blanks after it up to a width. -/
def filled (width : Nat) (s : String) : String := s ++ String.ofList (List.replicate (width - s.length) ' ')

/-- The line for an entry. -/
def plain (e : Entry) : String :=
  timeText e.time ++ " | " ++ filled 8 (levelName e.level) ++ " | " ++ e.logger ++ ":" ++ toString e.line ++
    " - " ++ e.message

/-- The line for an entry on a console. -/
def coloured (e : Entry) : String :=
  match colour? e.level with
  | some c => c ++ e.plain ++ colourEnd
  | none => e.plain

end Entry

/-- The last year that a line can show. -/
def lastYear : Int := 2147483647

/-- The first and the last year that a clock can show. -/
def clockYears : Int × Int := (-2147481748, 2147485547)

/-- The moment of a clock's count of whole seconds, if the clock and the line can show it. -/
def momentOfSeconds (n : Int) : Except Fault Instant :=
  if !Schema.fitsWord n then .error (.overflow "timestamp out of range for platform time_t")
  else
    let (year, _) := Instant.dateOfDays (Int.fdiv n 86400)
    if year < clockYears.1 || clockYears.2 < year then
      .error (.plain (.other "OSError") "[Errno 75] Value too large for defined data type")
    else if lastYear < year then .error (.overflow "signed integer is greater than maximum")
    else .ok (Instant.ofUniversal (n * Instant.second))

/-- The moment of a clock's count of seconds. Parts of a second do not count. -/
def moment : Datum → Except Fault Instant
  | .bool b => momentOfSeconds (if b then 1 else 0)
  | .int n => momentOfSeconds n
  | .float x =>
    match Number.truncate? x.floor with
    | some n => momentOfSeconds n
    | none =>
      if x.isNaN then .error (.value "Invalid value NaN (not a number)")
      else .error (.overflow "timestamp out of range for platform time_t")
  | _ => .error .badType

/-- Where entries go. -/
inductive Sink
  | console (coloured : Bool)
  | file (path : String)
  deriving DecidableEq, Repr

/-- How the log is set up: the level from which entries are kept, and where they go. -/
structure Setup where
  level : Int
  sinks : List Sink
  deriving DecidableEq, Repr

/-- The loggers whose level is set along with that of the log. -/
def loggers : List String := ["remediator", "uvicorn", "uvicorn.error", "uvicorn.access", "main"]

/-- The name of the log file of a day. -/
def fileName (now : Instant) : String := "remediator_" ++ now.dateStamp ++ ".log"

/-- The first entry of a log with a file. -/
def firstEntry (now : Instant) : Entry where
  logger := "root"
  level := debugLevel
  line := 75
  message := "Logging initialized (console + file)."
  time := now

/-- Opens the log file of the day in a directory, which is made if it is not there. -/
def openFile (level : Int) (dir : String) : Act Sink := do
  let w ← get
  let path := Path.absolute w.here (Path.join dir (fileName w.now))
  unless ← Act.pathExists dir do Act.ensureDirectories dir
  let old ← if ← Act.pathExists path then Act.readBytes path else pure .empty
  let text := if level ≤ debugLevel then (firstEntry w.now).plain ++ "\n" else ""
  Act.writeBytes path (old ++ Text.encode text)
  return .file path

/-- Sets the log up. -/
def setUp (level : Int) (dir : Option String) (coloured : Bool) : Act Setup := do
  let files ← match dir with
    | some d => if d.isEmpty then pure [] else pure [← openFile level d]
    | none => pure []
  return ⟨level, .console coloured :: files⟩

end Ratchet.Log
