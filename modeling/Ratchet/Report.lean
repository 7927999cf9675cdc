import Ratchet.Category.Grouping
import Ratchet.Number.Binary64
import Ratchet.Schema

/-!
Run reports.

A report says how many diagnostics a run found and left, what each attempt did, and what to do next.
A phase is one attempt at one category; its changes were kept when it did not fail, was not reverted
and was not only planned.
-/

namespace Ratchet

/-- The outcome of one attempt at one category. -/
structure Phase where
  category : String
  iteration : Int
  before : Int
  after : Int
  improvement : Int := 0
  increase : Int := 0
  reverted : Bool := false
  duration : Int := 0
  error : Option String := none
  transformError : Option String := none
  timeout : Bool := false
  rolledBack : Bool := false
  applied : Int := 0
  filesChanged : List String := []
  backup : Option String := none
  dryRun : Bool := false
  deriving DecidableEq, Repr

namespace Phase

/-- Whether the attempt failed. -/
def failed (p : Phase) : Bool := p.error.isSome

/-- Whether the changes of the attempt were kept in the tree. -/
def committed (p : Phase) : Bool := !p.failed && !p.reverted && !p.dryRun

/-- Reads a phase. -/
def ofEntries (es : List (Datum × Datum)) : Schema.Checked Phase :=
  Phase.mk <$> Schema.required es "category" Schema.text <*> Schema.required es "iteration" Schema.int <*>
    Schema.required es "before_count" Schema.int <*> Schema.required es "after_count" Schema.int <*>
    Schema.field es "improvement" 0 Schema.int <*> Schema.field es "increase" 0 Schema.int <*>
    Schema.field es "reverted" false Schema.bool <*> Schema.field es "duration_ms" 0 Schema.int <*>
    Schema.field es "error" none (Schema.nullable Schema.text) <*>
    Schema.field es "transform_error" none (Schema.nullable Schema.text) <*>
    Schema.field es "timeout" false Schema.bool <*> Schema.field es "rolled_back" false Schema.bool <*>
    Schema.field es "applied" 0 Schema.int <*>
    Schema.field es "files_changed" [] (Schema.list Schema.text) <*>
    Schema.field es "backup_id" none (Schema.nullable Schema.text) <*>
    Schema.field es "dry_run" false Schema.bool

/-- A phase as a document. -/
def toDatum (p : Phase) : Datum := Datum.ofFields [
  ("category", .text p.category), ("iteration", .int p.iteration), ("before_count", .int p.before),
  ("after_count", .int p.after), ("improvement", .int p.improvement), ("increase", .int p.increase),
  ("reverted", .bool p.reverted), ("duration_ms", .int p.duration), ("error", Datum.ofText? p.error),
  ("transform_error", Datum.ofText? p.transformError), ("timeout", .bool p.timeout),
  ("rolled_back", .bool p.rolledBack), ("applied", .int p.applied),
  ("files_changed", Datum.ofTexts p.filesChanged), ("backup_id", Datum.ofText? p.backup),
  ("dry_run", .bool p.dryRun)]

end Phase

/-- A scheduled category as a report shows it. -/
structure ScheduleRow where
  name : String
  priority : Float
  rootCause : String
  strategyName : String
  diagnostics : Int := 0
  files : Int := 0

namespace ScheduleRow

/-- The row of a scheduled category. -/
def ofScheduled (s : Scheduled) : ScheduleRow :=
  ⟨s.category.name, Number.nearest false s.priority 100, s.category.rootCause, s.category.strategyName,
    s.diagnostics, s.files⟩

/-- Reads a row. -/
def ofEntries (es : List (Datum × Datum)) : Schema.Checked ScheduleRow :=
  ScheduleRow.mk <$> Schema.required es "name" Schema.text <*> Schema.required es "priority" Schema.float <*>
    Schema.required es "root_cause" Schema.text <*> Schema.required es "strategy_id" Schema.text <*>
    Schema.field es "diagnostic_count" 0 Schema.int <*> Schema.field es "file_count" 0 Schema.int

/-- A row as a document. -/
def toDatum (r : ScheduleRow) : Datum := Datum.ofFields [
  ("name", .text r.name), ("priority", .float r.priority), ("root_cause", .text r.rootCause),
  ("strategy_id", .text r.strategyName), ("diagnostic_count", .int r.diagnostics),
  ("file_count", .int r.files)]

end ScheduleRow

/-- The report of a run. -/
structure Report where
  timestamp : Instant
  duration : Float := 0
  projectPath : String := ""
  status : String := "clean"
  dryRun : Bool := false
  initial : Int := 0
  final : Int := 0
  improvement : Int := 0
  successRate : Float := 0
  maxIncrease : Int := 0
  phases : List Phase := []
  schedule : List ScheduleRow := []
  recommendations : List String := []
  remaining : List (String × Int) := []
  backups : List String := []
  skipped : List String := []
  error : Option String := none

namespace Report

/-- Reads a report. -/
def ofEntries (es : List (Datum × Datum)) : Schema.Checked Report :=
  Report.mk <$> Schema.required es "timestamp" Schema.instant <*>
    Schema.field es "duration_seconds" 0 Schema.float <*> Schema.field es "project_path" "" Schema.text <*>
    Schema.field es "status" "clean" Schema.text <*> Schema.field es "dry_run" false Schema.bool <*>
    Schema.field es "initial_errors" 0 Schema.int <*> Schema.field es "final_errors" 0 Schema.int <*>
    Schema.field es "total_improvement" 0 Schema.int <*> Schema.field es "success_rate" 0 Schema.float <*>
    Schema.field es "max_allowed_increase" 0 Schema.int <*>
    Schema.field es "phases" [] (Schema.list (Schema.record Phase.ofEntries)) <*>
    Schema.field es "schedule" [] (Schema.list (Schema.record ScheduleRow.ofEntries)) <*>
    Schema.field es "recommendations" [] (Schema.list Schema.text) <*>
    Schema.field es "remaining_by_category" [] (Schema.mapping Schema.int) <*>
    Schema.field es "backups" [] (Schema.list Schema.text) <*>
    Schema.field es "skipped_categories" [] (Schema.list Schema.text) <*>
    Schema.field es "error" none (Schema.nullable Schema.text)

/-- A report as a document. -/
def toDatum (r : Report) : Datum := Datum.ofFields [
  ("timestamp", .text r.timestamp.text), ("duration_seconds", .float r.duration),
  ("project_path", .text r.projectPath), ("status", .text r.status), ("dry_run", .bool r.dryRun),
  ("initial_errors", .int r.initial), ("final_errors", .int r.final),
  ("total_improvement", .int r.improvement), ("success_rate", .float r.successRate),
  ("max_allowed_increase", .int r.maxIncrease), ("phases", .list (r.phases.map Phase.toDatum)),
  ("schedule", .list (r.schedule.map ScheduleRow.toDatum)),
  ("recommendations", Datum.ofTexts r.recommendations),
  ("remaining_by_category", Datum.ofFields (r.remaining.map fun (k, n) => (k, .int n))),
  ("backups", Datum.ofTexts r.backups), ("skipped_categories", Datum.ofTexts r.skipped),
  ("error", Datum.ofText? r.error)]

end Report

end Ratchet
