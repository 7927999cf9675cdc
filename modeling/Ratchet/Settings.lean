import Ratchet.Path
import Ratchet.Text.Letter
import Ratchet.Schema

/-!
The settings of a run.

A setting comes from the caller, from the project's configuration file, or from the defaults, which
are read from variables of the environment. What the caller and the file say is checked; a default
stands as it is.
-/

namespace Ratchet

/-- A command, as one line or as its words. -/
inductive Command
  | line (s : String)
  | words (ws : List String)
  deriving DecidableEq, Repr

/-- How a category's strategy is configured. -/
inductive TransformSpec
  /-- The name of a callable: `module:callable`. -/
  | reference (s : String)
  /-- A foreign command and what belongs to it. -/
  | command (fields : List (String × Datum))

/-- The settings that hold when nothing else is said. -/
structure Defaults where
  toolchainCommand : String := ""
  timeout : Int := 120
  transformTimeout : Int := 300
  maxIterations : Int := 1
  maxIncrease : Int := 0
  phaseDelay : Float := 2
  backupDir : String := ".remediation-backups"
  reportPath : String := "remediation-report.json"
  analysisPath : String := "remediation-analysis.md"
  snapshotProvider : String := "auto"
  sandboxImage : String := ""
  webhook : String := ""

/-- The settings of a run. -/
structure Settings where
  projectPath : String
  dryRun : Bool := false
  backupEnabled : Bool := true
  strict : Bool := false
  maxIterations : Int := 1
  timeout : Int := 120
  transformTimeout : Int := 300
  maxIncrease : Int := 0
  phaseDelay : Float := 2
  toolchainCommand : Command := .line ""
  snapshotProvider : String := "auto"
  sandboxImage : String := ""
  backupDir : String := ".remediation-backups"
  reportPath : String := "remediation-report.json"
  analysisPath : String := "remediation-analysis.md"
  webhook : String := ""
  disabled : List String := []
  transforms : List (String × TransformSpec) := []

namespace Settings

/-- The name of a project's configuration file. -/
def fileName : String := "remediator.yaml"

/-- The names of the snapshot providers. -/
def providerNames : List String := ["auto", "git", "files", "none"]

/-- Reads the name of a snapshot provider, in any letter case and with blanks around it. -/
def readProvider : Schema.Reader String := fun d =>
  match Schema.text d with
  | .ok s =>
    let name := String.ofList (Text.lowered (Text.trimList s.toList))
    if providerNames.contains name then .ok name else .flaw .valueError
  | .flawed is => .flawed is

/-- Reads a command. -/
def readCommand : Schema.Reader Command :=
  Schema.either "str" (fun d => .line <$> Schema.text d)
    "list[str]" (fun d => .words <$> Schema.list Schema.text d)

/-- Reads the configuration of a strategy. -/
def readTransform : Schema.Reader TransformSpec :=
  Schema.either "str" (fun d => .reference <$> Schema.text d)
    "dict[str,any]" (fun d => .command <$> Schema.mapping Schema.anything d)

/-- Reads settings. -/
def ofEntries (defaults : Defaults) (es : List (Datum × Datum)) : Schema.Checked Settings :=
  Settings.mk <$> Schema.required es "project_path" Schema.text <*>
    Schema.field es "dry_run" false Schema.bool <*>
    Schema.field es "backup_enabled" true Schema.bool <*>
    Schema.field es "strict" false Schema.bool <*>
    Schema.field es "max_iterations" defaults.maxIterations (Schema.intFrom 1) <*>
    Schema.field es "timeout_seconds" defaults.timeout (Schema.intFrom 1) <*>
    Schema.field es "transform_timeout_seconds" defaults.transformTimeout (Schema.intFrom 1) <*>
    Schema.field es "max_allowed_increase" defaults.maxIncrease (Schema.intFrom 0) <*>
    Schema.field es "phase_delay_seconds" defaults.phaseDelay (Schema.floatFrom 0) <*>
    Schema.field es "toolchain_command" (.line defaults.toolchainCommand) readCommand <*>
    Schema.field es "snapshot_provider" defaults.snapshotProvider readProvider <*>
    Schema.field es "sandbox_image" defaults.sandboxImage Schema.text <*>
    Schema.field es "backup_dir" defaults.backupDir Schema.text <*>
    Schema.field es "report_path" defaults.reportPath Schema.text <*>
    Schema.field es "analysis_path" defaults.analysisPath Schema.text <*>
    Schema.field es "report_webhook_url" defaults.webhook Schema.text <*>
    Schema.field es "disabled_categories" [] (Schema.list Schema.text) <*>
    Schema.field es "transforms" [] (Schema.mapping readTransform)

/-- A configured path seen from the project. -/
def resolve (s : Settings) (here path : String) : String :=
  if Path.isAbsolute path then path else Path.join (Path.absolute here s.projectPath) path

/-- Where the backups are kept. -/
def backupRoot (s : Settings) (here : String) : String := s.resolve here s.backupDir

/-- Where the report is written. -/
def reportFile (s : Settings) (here : String) : String := s.resolve here s.reportPath

/-- Where the analysis is written. -/
def analysisFile (s : Settings) (here : String) : String := s.resolve here s.analysisPath

end Settings

end Ratchet
