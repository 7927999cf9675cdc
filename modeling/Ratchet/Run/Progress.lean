import Ratchet.Report
import Ratchet.Settings

/-!
Where a run stands: its stage, the counts, the diagnostics of the last measurement that was kept, and
the log of its phases.
-/

namespace Ratchet

/-- The stages of a run. -/
inductive Stage
  | idle
  | analyzing
  | scheduling
  | checkpointing
  | transforming
  | measuring
  | committing
  | reverting
  | done
  | failed
  deriving DecidableEq, Repr

/-- The name of a stage. -/
def Stage.name : Stage → String
  | idle => "idle"
  | analyzing => "analyzing"
  | scheduling => "scheduling"
  | checkpointing => "checkpointing"
  | transforming => "transforming"
  | measuring => "measuring"
  | committing => "committing"
  | reverting => "reverting"
  | done => "done"
  | failed => "failed"

/-- Where a run stands. -/
structure Progress where
  stage : Stage := .idle
  /-- The stages that were entered, in order. -/
  trail : List Stage := []
  /-- The reading of the clock when the run began. -/
  start : Float := 0
  initial : Nat := 0
  /-- The count of the last measurement that was kept. -/
  current : Nat := 0
  /-- The diagnostics of the last measurement that was kept. -/
  diagnostics : List Diagnostic := []
  /-- The first measurement, once there is one. -/
  grouping : Option Grouping := none
  schedule : List Scheduled := []
  phases : List Phase := []
  backups : List String := []
  skipped : List String := []
  category : Option String := none
  error : Option String := none
  /-- How many attempts were made. -/
  attempts : Nat := 0

namespace Progress

/-- The progress of a run that enters a stage. -/
def enter (p : Progress) (s : Stage) : Progress := { p with stage := s, trail := p.trail ++ [s] }

/-- The progress of a run that ends with a fault. -/
def fail (p : Progress) (message : String) : Progress := { p with error := some message }.enter .failed

/-- Seconds since the run began, to three places. -/
def elapsed (p : Progress) (clock : Float) : Float := Number.roundTo 3 (clock - p.start)

end Progress

/-- What is shown of a run while it goes on. -/
structure Overview where
  stage : String := "idle"
  projectPath : String := ""
  dryRun : Bool := false
  category : Option String := none
  initial : Int := 0
  current : Int := 0
  phases : Nat := 0
  scheduled : List String := []
  start : Float := 0
  error : Option String := none

namespace Overview

/-- What is shown of a run. -/
def ofProgress (s : Settings) (p : Progress) : Overview where
  stage := p.stage.name
  projectPath := s.projectPath
  dryRun := s.dryRun
  category := p.category
  initial := p.initial
  current := p.current
  phases := p.phases.length
  scheduled := p.schedule.map (·.category.name)
  start := p.start
  error := p.error

/-- What is shown of a run at a reading of the clock. -/
def fields (o : Overview) (clock : Float) : List (String × Datum) := [
  ("state", .text o.stage), ("project_path", .text o.projectPath), ("dry_run", .bool o.dryRun),
  ("current_category", Datum.ofText? o.category), ("initial_errors", .int o.initial),
  ("current_errors", .int o.current), ("phases_completed", .int o.phases),
  ("scheduled", Datum.ofTexts o.scheduled), ("elapsed_seconds", .float (Number.roundTo 3 (clock - o.start))),
  ("error", Datum.ofText? o.error)]

end Overview

end Ratchet
