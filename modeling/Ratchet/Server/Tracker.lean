import Ratchet.Run.Progress

/-!
The run of a server.

A server makes one run at a time. The tracker knows whether a run goes on, what is shown of it once
its progress is known, and the report of the last run that ended with one.
-/

namespace Ratchet

/-- What a server knows of its runs. -/
structure Tracker where
  /-- The run that goes on, if there is one, and what is shown of it. -/
  active : Option (Option Overview) := none
  /-- The report of the last run that ended with one. -/
  last : Option Report := none

namespace Tracker

/-- Begins a run; says whether it may begin. -/
def acquire (t : Tracker) (o : Option Overview) : Bool × Tracker :=
  match t.active with
  | some _ => (false, t)
  | none => (true, { t with active := some o })

/-- Ends the run, with its report if there is one. -/
def release (t : Tracker) (r : Option Report) : Tracker :=
  { active := none, last := r.or t.last }

/-- What is shown of the server's runs at a reading of the clock. -/
def status (t : Tracker) (clock : Float) : List (String × Datum) :=
  match t.active with
  | some (some o) => ("running", .bool true) :: o.fields clock
  | some none => [("running", .bool true), ("state", .text "idle")]
  | none => [("running", .bool false), ("state", .text "idle"),
      ("last_status", Datum.ofText? (t.last.map (·.status))),
      ("last_project_path", Datum.ofText? (t.last.map (·.projectPath)))]

end Tracker

end Ratchet
