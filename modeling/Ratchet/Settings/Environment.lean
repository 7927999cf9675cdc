import Ratchet.Fault
import Ratchet.Settings

/-!
Defaults from variables of the environment.

A variable that is not set leaves the default as it is; one that is set to something else than a
number where a number belongs is a fault.
-/

namespace Ratchet.Defaults

/-- Variables of the environment. -/
abbrev Variables := List (String × String)

/-- The text of a variable, or a default. -/
def textOf (vars : Variables) (name default : String) : String := (vars.lookup name).getD default

/-- The whole number of a variable, or a default. -/
def intOf (vars : Variables) (name : String) (default : Int) : Except Fault Int :=
  match vars.lookup name with
  | none => .ok default
  | some s => (Number.readInt s).mapError fun e => .value (e.text 10 s)

/-- The decimal of a variable, or a default. -/
def floatOf (vars : Variables) (name : String) (default : Float) : Except Fault Float :=
  match vars.lookup name with
  | none => .ok default
  | some s => match Number.readFloat? s with
    | some x => .ok x
    | none => .error (.value ("could not convert string to float: " ++ Text.quoted s))

/-- The defaults that variables of the environment give. -/
def ofVariables (vars : Variables) : Except Fault Defaults := do
  let std : Defaults := {}
  let timeout ← intOf vars "REMEDIATOR_TIMEOUT_SECONDS" std.timeout
  let transformTimeout ← intOf vars "REMEDIATOR_TRANSFORM_TIMEOUT" std.transformTimeout
  let maxIterations ← intOf vars "REMEDIATOR_MAX_ITERATIONS" std.maxIterations
  let maxIncrease ← intOf vars "REMEDIATOR_MAX_ALLOWED_INCREASE" std.maxIncrease
  let phaseDelay ← floatOf vars "REMEDIATOR_PHASE_DELAY" std.phaseDelay
  return {
    toolchainCommand := textOf vars "REMEDIATOR_TOOLCHAIN_COMMAND" std.toolchainCommand
    timeout, transformTimeout, maxIterations, maxIncrease, phaseDelay
    backupDir := textOf vars "REMEDIATOR_BACKUP_DIR" std.backupDir
    reportPath := textOf vars "REMEDIATOR_REPORT_PATH" std.reportPath
    analysisPath := textOf vars "REMEDIATOR_ANALYSIS_PATH" std.analysisPath
    snapshotProvider := textOf vars "REMEDIATOR_SNAPSHOT_PROVIDER" std.snapshotProvider
    sandboxImage := textOf vars "REMEDIATOR_SANDBOX_IMAGE" std.sandboxImage
    webhook := textOf vars "REMEDIATOR_REPORT_WEBHOOK" std.webhook }

end Ratchet.Defaults
