import Ratchet.CommandLine.Request
import Ratchet.Run
import Ratchet.Settings.Load

/-!
The command line.

A request prints to the output and comes to an ending, which decides the exit code and what is
complained of. A run that ends with an error, settings that cannot be loaded and a misuse are setup
failures; a strict run that leaves diagnostics behind, and backups that cannot be restored, end with
another code. Faults that no request is prepared for escape.
-/

namespace Ratchet.CommandLine

/-- How a request ends. -/
inductive Ending
  | done
  /-- Diagnostics remain where none may. -/
  | remaining
  /-- What was asked cannot be done. -/
  | failed (complaint : String)
  /-- Nothing can be done before the setup is mended. -/
  | setup (complaint : Option String)
  /-- The command line makes no sense. -/
  | misused (m : Misuse)
  deriving DecidableEq, Repr

namespace Ending

/-- The exit code of an ending. -/
def code : Ending → Nat
  | done => 0
  | remaining | failed _ => 1
  | setup _ | misused _ => 2

/-- What is complained of at the end. -/
def complaint? : Ending → Option String
  | done | remaining => none
  | failed m => some m
  | setup m => m
  | misused m => m.message?

end Ending

/-- A computation that prints. -/
abbrev Printing (α : Type) := Keeping String α

/-- Prints a line. -/
def print (line : String) : Printing Unit := Act.keep (· ++ line ++ "\n")

/-- Prints lines. -/
def printAll (lines : List String) : Printing Unit := Act.keep (· ++ String.join (lines.map (· ++ "\n")))

/-- Goes on with settings, if they can be loaded. -/
def withSettings (defaults : Defaults) (project : String) (config : Option String) (said : List (String × Datum))
    (go : Settings → Printing Ending) : Printing Ending := do
  match ← Act.outcome (Act.beside (Settings.load defaults project config said)) with
  | .ok s => go s
  | .error f => if f.kind == .config then return .setup f.text else throw f

/-! ## Runs -/

/-- The line for a phase. -/
def phaseLine (p : Phase) : String :=
  let note :=
    if p.reverted then " reverted"
    else match p.error with
      | some e => if e.isEmpty then "" else " error: " ++ e
      | none => ""
  "  " ++ p.category ++ " #" ++ toString p.iteration ++ ": " ++ toString p.before ++ " → " ++ toString p.after ++ note

/-- The lines for a report. -/
def reportLines (r : Report) : List String :=
  ["Status: " ++ r.status ++ (if r.dryRun then " (dry run)" else ""),
    "Diagnostics: " ++ toString r.initial ++ " → " ++ toString r.final ++ " (" ++ Report.withSign r.improvement ++
      " improvement, " ++ Number.percent 1 r.successRate ++ ")"] ++
    r.phases.map phaseLine ++ r.recommendations.map ("  - " ++ ·)

/-- How a run ends that made a report. -/
def endingOf (s : Settings) (json : Bool) (r : Report) : Ending :=
  if r.status == "error" then .setup (if json then none else some (r.error.getD "None"))
  else if s.strict && 0 < r.final then .remaining
  else .done

/-- Makes a run. -/
def makeRun (defaults : Defaults) (r : RunRequest) : Printing Ending :=
  withSettings defaults r.project r.config r.said fun s => do
    let report ← Act.beside (Run.withSettings defaults s)
    if r.json then print (Json.write report.toDatum) else printAll (reportLines report)
    return endingOf s r.json report

/-! ## Analyses -/

/-- The document for a measurement. -/
def analysisDatum (g : Grouping) : Datum :=
  Datum.ofFields [("total", .int g.total),
    ("categories", .list ((g.schedule []).map fun s => (ScheduleRow.ofScheduled s).toDatum)),
    ("codes", Datum.ofFields (g.byCode.map fun (c, ds) => (c, .int ds.length)))]

/-- Runs the toolchain once. -/
def observe (s : Settings) : Act Observation := do (← Toolchain.ofSettings s).invoke

/-- Measures once and shows what was found. -/
def analyze (defaults : Defaults) (r : AnalysisRequest) : Printing Ending :=
  withSettings defaults r.project none r.said fun s => do
    match ← Act.outcome (Act.beside (observe s)) with
    | .error f => if f.kind == .config || f.kind.isToolchain then return .setup f.text else throw f
    | .ok o =>
      let g := Grouping.ofList (← Act.ofResult (Diagnostic.ofOutput (← get).2.here s.projectPath o.output))
      print (if r.json then Json.write (analysisDatum g) else Report.analysis g none)
      match r.output with
      | some path => if !path.isEmpty then Act.beside (Act.writeText path (Report.analysis g none))
      | none => pure ()
      return .done

/-! ## Backups -/

/-- Goes on with the archive of a project. -/
def withArchive (defaults : Defaults) (project : String) (go : Archive → Printing Ending) : Printing Ending :=
  withSettings defaults project none [] fun s => do
    let here := (← get).2.here
    go (Archive.at here (s.backupRoot here) s.projectPath)

/-- The line for a backup. -/
def backupLine (b : Backup) : String :=
  b.name ++ "  " ++ b.timestamp.listingText ++ "  " ++ toString b.files.length ++ " files  " ++ b.description

/-- Lists backups. -/
def listBackups (defaults : Defaults) (project : String) (json : Bool) : Printing Ending :=
  withArchive defaults project fun a => do
    let bs ← Act.beside a.list
    if json then print (Json.write (.list (bs.map Backup.toDatum)))
    else printAll (if bs.isEmpty then ["No backups."] else bs.map backupLine)
    return .done

/-- Restores a backup. -/
def restoreBackup (defaults : Defaults) (project name : String) : Printing Ending :=
  withArchive defaults project fun a => do
    match ← Act.outcome (Act.beside (a.restore name)) with
    | .ok b =>
      print ("Restored " ++ toString b.files.length ++ " files from " ++ b.name)
      return .done
    | .error f => if f.kind.isBackup then return .failed f.text else throw f

/-- Prunes backups. -/
def pruneBackups (defaults : Defaults) (project : String) (days : Option Float) (keep : Option Int) :
    Printing Ending :=
  withArchive defaults project fun a => do
    print ("Pruned " ++ toString (← Act.beside (a.prune days keep)) ++ " backups")
    return .done

/-! ## All requests -/

/-- Does what is asked. Serving is not done here: whoever asks for it calls the server. -/
def perform (defaults : Defaults) : Request → Printing Ending
  | .help | .serve .. => return .done
  | .run r => makeRun defaults r
  | .analyze r => analyze defaults r
  | .listBackups project json => listBackups defaults project json
  | .restoreBackup project name => restoreBackup defaults project name
  | .pruneBackups project days keep => pruneBackups defaults project days keep

/-- Reads a command line and does what it asks. -/
def run (defaults : Defaults) (ws : List String) : Printing Ending := do
  match ← Act.beside (Request.ofWords ws) with
  | .ok r => perform defaults r
  | .error m => return .misused m

/-- What came of a command line. -/
structure Outcome where
  ending : Except Fault Ending
  output : String

namespace Outcome

/-- The exit code. -/
def code (o : Outcome) : Nat :=
  match o.ending with
  | .ok e => e.code
  | .error _ => 1

/-- The lines of the error output. -/
def complaints (o : Outcome) : List String :=
  match o.ending with
  | .ok e => match e.complaint? with
    | some m => (Text.lineBodies ("Error: " ++ m).toList).map String.ofList
    | none => []
  | .error _ => []

end Outcome

/-- What comes of a command line in a world, and the world after it. -/
def outcomeOf (defaults : Defaults) (ws : List String) (w : World) : Outcome × World :=
  let (ending, (output, w)) := Act.runOn ("", w) (run defaults ws)
  (⟨ending, output⟩, w)

end Ratchet.CommandLine
