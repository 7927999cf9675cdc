import Ratchet.Backup.Archive
import Ratchet.Run
import Ratchet.Server.Address
import Ratchet.Server.Tracker
import Ratchet.Settings.Load

/-!
The server.

A server takes calls for a run, for the state of its runs, for the last report, and for the backups of
a project. A call that is malformed is answered with its flaws; a fault of the engine is answered with
a status of its own; any other fault is an internal error.
-/

namespace Ratchet.Server

/-- A call of the server. -/
structure Call where
  method : String
  path : String
  query : List (String × String) := []
  body : Option Datum := none

/-- What an answer holds. -/
inductive Body
  | document (d : Datum)
  | issues (is : List Schema.Issue)
  | text (s : String)

/-- The answer to a call. -/
structure Reply where
  status : Nat
  body : Body

namespace Reply

/-- An answer with a document. -/
def ok (d : Datum) : Reply := ⟨200, .document d⟩

/-- An answer that says what is wrong. -/
def refusal (status : Nat) (detail : String) : Reply :=
  ⟨status, .document (Datum.ofFields [("detail", .text detail)])⟩

/-- The answer to a call that is malformed. -/
def malformed (is : List Schema.Issue) : Reply := ⟨422, .issues is⟩

/-- The answer when something went wrong that has no answer of its own. -/
def internalError : Reply := ⟨500, .text "Internal Server Error"⟩

/-- An answer with a report. A report with a number that cannot be sent is an internal error. -/
def report (r : Report) : Reply := if r.sendable then ok r.toDatum else internalError

end Reply

/-- The status of an answer to a fault. -/
def statusOf (k : FaultKind) : Nat :=
  match k with
  | .backupNotFound => 404
  | .backupIntegrity => 409
  | .config => 400
  | _ => 500

/-- The answer to a fault of the engine. -/
def refusalOf (f : Fault) : Reply := .refusal (statusOf f.kind) f.text

/-- Goes on with the value of an act, or answers with its fault if that is one of those meant. -/
def answering {σ α : Type} (meant : FaultKind → Bool) (a : Doing σ α) (go : α → Doing σ Reply) : Doing σ Reply := do
  match ← Act.outcome a with
  | .ok x => go x
  | .error f => if meant f.kind then return refusalOf f else throw f

/-- Goes on with the value that a body holds. -/
def reading {σ α : Type} (r : List (Datum × Datum) → Schema.Checked α) (body : Option Datum)
    (go : α → Doing σ Reply) : Doing σ Reply :=
  match body with
  | none => return .malformed [⟨["body"], .missing⟩]
  | some (.map es) => match r es with
    | .ok x => go x
    | .flawed is => return .malformed (is.map (.under "body"))
  | some _ => return .malformed [⟨["body"], .modelAttributesType⟩]

/-! ## Runs -/

/-- What a call for a run asks. -/
structure RunRequest where
  projectPath : String
  dryRun : Bool
  backupEnabled : Bool
  maxIterations : Option Int
  timeout : Option Int
  maxIncrease : Option Int
  toolchainCommand : Option String

namespace RunRequest

/-- Reads what a call for a run asks. -/
def ofEntries (es : List (Datum × Datum)) : Schema.Checked RunRequest :=
  RunRequest.mk <$> Schema.required es "project_path" Schema.text <*>
    Schema.field es "dry_run" false Schema.bool <*>
    Schema.field es "backup_enabled" true Schema.bool <*>
    Schema.field es "max_iterations" none (Schema.nullable (Schema.intFrom 1)) <*>
    Schema.field es "timeout_seconds" none (Schema.nullable (Schema.intFrom 1)) <*>
    Schema.field es "max_allowed_increase" none (Schema.nullable (Schema.intFrom 0)) <*>
    Schema.field es "toolchain_command" none (Schema.nullable Schema.text)

/-- What the call says about the settings. -/
def said (r : RunRequest) : List (String × Datum) :=
  let number (n : Option Int) : Datum := (n.map Datum.int).getD .null
  [("dry_run", .bool r.dryRun), ("backup_enabled", .bool r.backupEnabled),
    ("max_iterations", number r.maxIterations), ("timeout_seconds", number r.timeout),
    ("max_allowed_increase", number r.maxIncrease), ("toolchain_command", Datum.ofText? r.toolchainCommand)]

end RunRequest

/-- Makes a run, if none goes on. -/
def makeRun (defaults : Defaults) (s : Settings) : Keeping Tracker Reply := do
  let (free, t) := (← Act.kept).acquire none
  if free then
    Act.keep fun _ => t
    let ended ← Act.outcome (Act.beside (Run.withSettings defaults s))
    Act.keep (·.release ended.toOption)
    match ended with
    | .ok r => return .report r
    | .error f => return .refusal 500 ("Orchestrator error: " ++ f.text)
  else return .refusal 409 "A remediation run is already in progress"

/-- Answers a call for a run. -/
def startRun (defaults : Defaults) (body : Option Datum) : Keeping Tracker Reply :=
  reading RunRequest.ofEntries body fun r =>
    answering (· == .config) (Act.beside (Settings.load defaults r.projectPath none r.said)) (makeRun defaults)

/-- Answers a call for the last report, or for the report of a project. -/
def getReport (defaults : Defaults) (last : Option Report) (project : Option String) : Act Reply := do
  let answer : Option Report → Reply
    | some r => .report r
    | none => .refusal 404 "No report available"
  match project with
  | some p =>
    if p.isEmpty then return answer last
    else answering (· == .config) (Settings.load defaults p none []) fun s => do
      return answer (← Report.load (s.reportFile (← get).here))
  | none => return answer last

/-! ## Backups -/

/-- Goes on with the archive of a project. -/
def withArchive (defaults : Defaults) (project : String) (go : Archive → Act Reply) : Act Reply :=
  answering FaultKind.isEngine (Settings.load defaults project none []) fun s => do
    let here := (← get).here
    go (Archive.at here (s.backupRoot here) s.projectPath)

/-- Answers a call for the backups of a project. -/
def listBackups (defaults : Defaults) (project : Option String) : Act Reply :=
  match project with
  | none => return .malformed [⟨["query", "project_path"], .missing⟩]
  | some p => withArchive defaults p fun a => do return .ok (.list ((← a.list).map Backup.toDatum))

/-- Reads which project a call is about. -/
def projectOf (es : List (Datum × Datum)) : Schema.Checked String := Schema.required es "project_path" Schema.text

/-- Answers a call to restore a backup. -/
def restoreBackup (defaults : Defaults) (name : String) (body : Option Datum) : Act Reply :=
  reading projectOf body fun p => withArchive defaults p fun a =>
    answering FaultKind.isEngine (a.restore name) fun b => return .ok b.toDatum

/-- What a call to prune backups asks. -/
structure PruneRequest where
  projectPath : String
  days : Option Float
  keep : Option Int

/-- Reads what a call to prune backups asks. -/
def PruneRequest.ofEntries (es : List (Datum × Datum)) : Schema.Checked PruneRequest :=
  PruneRequest.mk <$> projectOf es <*>
    Schema.field es "older_than_days" none (Schema.nullable (Schema.floatFrom 0)) <*>
    Schema.field es "keep" none (Schema.nullable (Schema.intFrom 0))

/-- Answers a call to prune backups. -/
def pruneBackups (defaults : Defaults) (body : Option Datum) : Act Reply :=
  reading PruneRequest.ofEntries body fun r =>
    if r.days.isNone && r.keep.isNone then return .refusal 400 "older_than_days or keep is required"
    else withArchive defaults r.projectPath fun a => do
      return .ok (Datum.ofFields [("removed", .int (← a.prune r.days r.keep))])

/-! ## Routes -/

/-- What a path leads to. -/
inductive Route
  | health
  | runs
  | status
  | report
  | backups
  | prune
  | restore (name : String)
  deriving DecidableEq, Repr

namespace Route

/-- The route of a path. -/
def ofSegments? : List String → Option Route
  | ["health"] => some health
  | ["api", "runs"] => some runs
  | ["api", "status"] => some status
  | ["api", "report"] => some report
  | ["api", "backups"] => some backups
  | ["api", "backups", "prune"] => some prune
  | ["api", "backups", name, "restore"] => if name.isEmpty then none else some (restore name)
  | _ => none

/-- The segments of a path after its first slash. -/
def segments (path : String) : List String := (Path.components path).drop 1

/-- The route of a path; slashes at its end do not count if it leads nowhere with them. -/
def ofPath? (path : String) : Option Route :=
  (ofSegments? (segments path)).or
    (ofSegments? (segments (String.ofList (Text.dropEndWhile (· == '/') path.toList))))

/-- The method that a route is called with. -/
def method : Route → String
  | health | status | report | backups => "GET"
  | runs | prune | restore _ => "POST"

end Route

/-- Answers a call whose route and method fit. -/
def answer (defaults : Defaults) (c : Call) (route : Route) : Keeping Tracker Reply := do
  let project := c.query.reverse.lookup "project_path"
  match route with
  | .health => return .ok (Datum.ofFields [("status", .text "ok")])
  | .runs => startRun defaults c.body
  | .status => do
    let (t, w) ← get
    return .ok (Datum.ofFields (t.status w.clock))
  | .report => do
    let last := (← Act.kept).last
    Act.beside (getReport defaults last project)
  | .backups => Act.beside (listBackups defaults project)
  | .prune => Act.beside (pruneBackups defaults c.body)
  | .restore name => Act.beside (restoreBackup defaults name c.body)

/-- What of an answer goes out. Who asks for the head alone gets no body. -/
def sent (c : Call) (r : Reply) : Reply := if c.method == "HEAD" then { r with body := .text "" } else r

/-- Answers a call. -/
def handle (defaults : Defaults) (c : Call) : Keeping Tracker Reply := do
  match Route.ofPath? c.path with
  | none => return sent c (.refusal 404 "Not Found")
  | some route =>
    if c.method != route.method then return sent c (.refusal 405 "Method Not Allowed")
    else
      match ← Act.outcome (answer defaults c route) with
      | .ok r => return r
      | .error _ => return .internalError

end Ratchet.Server
