import Ratchet.CommandLine.Shape

/-!
What a command line asks.

The words lead through groups of commands to one verb; its options and arguments say the rest. An
option that is not given is not part of the request, so that the configuration decides.
-/

namespace Ratchet.CommandLine

/-- What is asked of a run. -/
structure RunRequest where
  project : String
  dryRun : Bool := false
  noBackup : Bool := false
  strict : Bool := false
  json : Bool := false
  maxIterations : Option Int := none
  timeout : Option Int := none
  maxIncrease : Option Int := none
  command : Option String := none
  config : Option String := none
  deriving DecidableEq, Repr

/-- What is asked of an analysis. -/
structure AnalysisRequest where
  project : String
  command : Option String := none
  timeout : Option Int := none
  json : Bool := false
  output : Option String := none
  deriving DecidableEq, Repr

/-- What a command line asks. -/
inductive Request
  /-- To be told what a command is for. -/
  | help
  | run (r : RunRequest)
  | analyze (r : AnalysisRequest)
  | listBackups (project : String) (json : Bool)
  | restoreBackup (project name : String)
  | pruneBackups (project : String) (days : Option Float) (keep : Option Int)
  /-- To serve calls at an address. -/
  | serve (host : String) (port : Int)

/-- The commands that do something. -/
inductive Verb
  | run
  | analyze
  | listBackups
  | restoreBackup
  | pruneBackups
  | serve
  deriving DecidableEq, Repr

namespace Verb

/-- The argument that names the project. -/
def project : ArgumentRule := ⟨"project_path", "PROJECT_PATH", .directory true⟩

/-- The option to print a document instead of text. -/
def json : OptionRule := { field := "json", spellings := ["--json"] }

/-- The option that names the check command. -/
def command : OptionRule := ⟨"toolchain_command", ["--command"], some .text⟩

/-- The option for the time limit of the toolchain. -/
def timeout : OptionRule := ⟨"timeout_seconds", ["--timeout"], some .integer⟩

/-- The shape of a command. -/
def shape : Verb → Shape
  | run => {
    arguments := [project]
    options := [{ field := "dry_run", spellings := ["--dry-run"] },
      { field := "no_backup", spellings := ["--no-backup"] },
      ⟨"max_iterations", ["--max-iterations"], some .integer⟩, timeout,
      ⟨"max_allowed_increase", ["--max-increase"], some .integer⟩,
      { field := "strict", spellings := ["--strict"] }, command,
      ⟨"config_path", ["--config"], some (.file true)⟩, json] }
  | analyze => {
    arguments := [project]
    options := [command, timeout, json, ⟨"output", ["--output"], some (.file false)⟩] }
  | listBackups => { arguments := [project], options := [json] }
  | restoreBackup => { arguments := [project, ⟨"backup_id", "BACKUP_ID", .text⟩] }
  | pruneBackups => {
    arguments := [project]
    options := [⟨"older_than_days", ["--older-than-days"], some .number⟩, ⟨"keep", ["--keep"], some .integer⟩] }
  | serve => { options := [⟨"host", ["--host"], some .text⟩, ⟨"port", ["--port"], some .integer⟩] }

/-- What a command asks with the values that were given. -/
def request (vs : Values) : Verb → Except Misuse Request
  | run => .ok (.run {
    project := (vs.text? "project_path").getD ""
    dryRun := vs.flag "dry_run", noBackup := vs.flag "no_backup"
    strict := vs.flag "strict", json := vs.flag "json"
    maxIterations := vs.int? "max_iterations", timeout := vs.int? "timeout_seconds"
    maxIncrease := vs.int? "max_allowed_increase"
    command := vs.text? "toolchain_command", config := vs.text? "config_path" })
  | analyze => .ok (.analyze {
    project := (vs.text? "project_path").getD ""
    command := vs.text? "toolchain_command", timeout := vs.int? "timeout_seconds"
    json := vs.flag "json", output := vs.text? "output" })
  | listBackups => .ok (.listBackups ((vs.text? "project_path").getD "") (vs.flag "json"))
  | restoreBackup => .ok (.restoreBackup ((vs.text? "project_path").getD "") ((vs.text? "backup_id").getD ""))
  | pruneBackups =>
    let (days, keep) := (vs.float? "older_than_days", vs.int? "keep")
    if days.isNone && keep.isNone then .error (.choiceMissing "Pass --older-than-days and/or --keep")
    else .ok (.pruneBackups ((vs.text? "project_path").getD "") days keep)
  | serve => .ok (.serve ((vs.text? "host").getD "127.0.0.1") ((vs.int? "port").getD 8000))

/-- The commands outside groups. -/
def outer : List (String × Verb) := [("run", run), ("analyze", analyze), ("serve", serve)]

/-- The commands on backups. -/
def onBackups : List (String × Verb) := [("list", listBackups), ("restore", restoreBackup), ("prune", pruneBackups)]

end Verb

namespace Request

/-- The name of the group of commands on backups. -/
def backupsName : String := "backups"

/-- The shape of a whole command line. -/
def outerShape : Shape where
  options := [{ field := "verbose", spellings := ["-v", "--verbose"] },
    ⟨"log_dir", ["--log-dir"], some (.directory false)⟩,
    { field := "no_color", spellings := ["--no-color"] }]
  commands := Verb.outer.map (·.1) ++ [backupsName]

/-- The shape of the group of commands on backups. -/
def backupsShape : Shape := { commands := Verb.onBackups.map (·.1) }

/-- Reads what a shape makes of words: nothing if help is asked for, else the values and the words that
are left. -/
def readShape (shape : Shape) (ws : List String) : Act (Except Misuse (Option (Values × List String))) := do
  match shape.sort ws with
  | .error m => return .error m
  | .ok sorted =>
    if sorted.asksHelp then return .ok none else return (← sorted.values shape).map some

/-- Reads the words of a command that does something. -/
def readVerb (v : Verb) (ws : List String) : Act (Except Misuse Request) := do
  match ← readShape v.shape ws with
  | .error m => return .error m
  | .ok none => return .ok .help
  | .ok (some (vs, [])) => return v.request vs
  | .ok (some (_, rest)) => return .error (.unexpected rest)

/-- Reads the words of a group and goes on with the command that they name. A word that names no command
may still be an option that came too late. -/
def readGroup (shape : Shape) (ws : List String) (next : String → List String → Act (Except Misuse Request)) :
    Act (Except Misuse Request) := do
  if ws.isEmpty then return .error .nothingAsked
  match ← readShape shape ws with
  | .error m => return .error m
  | .ok none => return .ok .help
  | .ok (some (_, [])) => return .error .commandMissing
  | .ok (some (_, w :: rest)) =>
    if shape.commands.contains w then next w rest
    else match ← readShape shape (w :: rest) with
      | .error m => return .error m
      | .ok none => return .ok .help
      | .ok (some _) => return .error (.noSuchCommand w (Text.closeWords w shape.commands))

/-- Reads the words of a verb that a list knows by a name. -/
def readNamed (verbs : List (String × Verb)) (name : String) (ws : List String) : Act (Except Misuse Request) :=
  match verbs.lookup name with
  | some v => readVerb v ws
  | none => return .error (.noSuchCommand name [])

/-- Reads a command line. -/
def ofWords (ws : List String) : Act (Except Misuse Request) :=
  readGroup outerShape ws fun name ws =>
    if name == backupsName then readGroup backupsShape ws (readNamed Verb.onBackups)
    else readNamed Verb.outer name ws

end Request

namespace RunRequest

/-- What the request says about the settings. A flag that is not given says nothing. -/
def said (r : RunRequest) : List (String × Datum) :=
  let number (n : Option Int) : Datum := (n.map Datum.int).getD .null
  [("dry_run", if r.dryRun then .bool true else .null),
    ("backup_enabled", if r.noBackup then .bool false else .null),
    ("strict", if r.strict then .bool true else .null),
    ("max_iterations", number r.maxIterations), ("timeout_seconds", number r.timeout),
    ("max_allowed_increase", number r.maxIncrease), ("toolchain_command", Datum.ofText? r.command)]

end RunRequest

namespace AnalysisRequest

/-- What the request says about the settings. -/
def said (r : AnalysisRequest) : List (String × Datum) :=
  [("toolchain_command", Datum.ofText? r.command), ("timeout_seconds", (r.timeout.map Datum.int).getD .null)]

end AnalysisRequest

end Ratchet.CommandLine
