import Ratchet.Diagnostic.Line
import Ratchet.Report.Delivery
import Ratchet.Report.Metrics
import Ratchet.Run.Crew
import Ratchet.Run.Progress

/-!
Runs.

A run measures the tree, schedules the categories of its diagnostics, and remedies them one by one.
Every attempt is guarded: a backup and a checkpoint come first, the strategy edits the tree, a fresh
measurement follows, and the edits are kept or undone by what the measurement shows. An attempt that
fails is undone and ends its category; a run ends early when nothing is left, when it cannot be set
up, or when edits cannot be undone. Counts are always those of a measurement.
-/

namespace Ratchet.Run

/-- A step of a run before the crew is complete: it keeps the progress, and the state of the snapshot
provider once there is one. -/
abbrev Setup (σ α : Type) := Keeping (Progress × Option σ) α

/-- A step of a run: it keeps the progress and the state of the snapshot provider. -/
abbrev Step (σ α : Type) := Keeping (Progress × σ) α

/-- What does not change during the phases of a run. -/
structure Frame (σ : Type) where
  settings : Settings
  measure : Act (List Diagnostic)
  registry : Registry
  guard : Guard σ

/-! ## Measuring -/

/-- How many of its last lines are shown of an output that cannot be used. -/
def shownLines : Nat := 5

/-- The last lines of an output. -/
def outputTail (output : String) : String :=
  let lines := (Text.lineBodies (Text.trimList output.toList)).map String.ofList
  "\n".intercalate (lines.drop (lines.length - shownLines))

/-- The diagnostics that an observation shows. A toolchain that fails without any cannot be used. -/
def read (here : String) (s : Settings) (o : Observation) : Except Fault (List Diagnostic) := do
  let ds ← Diagnostic.ofOutput here s.projectPath o.output
  if o.code != 0 && ds.isEmpty then
    .error (.plain .toolchain ("Toolchain exited with " ++ toString o.code ++
      " but reported no diagnostics: " ++ outputTail o.output))
  else return ds

/-- Measures the tree. -/
def measure (s : Settings) (invoke : Act Observation) : Act (List Diagnostic) := do
  Act.note .measurement
  let o ← invoke
  Act.ofResult (read (← get).here s o)

/-! ## Steps -/

section
variable {σ : Type}

/-- The progress. -/
def progress : Step σ Progress := return (← Act.kept).1

/-- Changes the progress. -/
def advance (f : Progress → Progress) : Step σ Unit := Act.keep fun x => (f x.1, x.2)

/-- Enters a stage. -/
def enter (s : Stage) : Step σ Unit := advance (·.enter s)

/-- Does something with the state of the snapshot provider. -/
def guarded {α : Type} (a : Keeping σ α) : Step σ α := Act.within (·.2) (fun s t => (t.1, s)) a

/-- The diagnostics of a category in the last measurement that was kept. -/
def recordsOf (p : Progress) (c : Category) : List Diagnostic := (Grouping.ofList p.diagnostics).get c

/-- The files of diagnostics that are there and lie in the project. -/
def presentFiles (w : World) (s : Settings) (ds : List Diagnostic) : List String :=
  (Diagnostic.files ds).filter fun f =>
    match Workspace.resolve w.here s.projectPath f with
    | .ok path => w.tree.isFile path
    | .error _ => false

/-- What is known of an attempt before it begins. -/
structure Attempt where
  category : Category
  iteration : Nat
  diagnostics : List Diagnostic

namespace Attempt

/-- The label of an attempt. -/
def label (a : Attempt) : String := a.category.name ++ " (iteration " ++ toString a.iteration ++ ")"

/-- The assignment for the strategy. -/
def assignment (a : Attempt) (s : Settings) : Assignment :=
  { category := a.category.name, diagnostics := a.diagnostics, root := s.projectPath, dryRun := s.dryRun }

/-- The phase of an attempt that has done nothing yet. -/
def blank (a : Attempt) (before : Nat) : Phase :=
  { category := a.category.name, iteration := a.iteration, before, after := before }

end Attempt

/-- A phase with the edits of a strategy. -/
def withEdits (p : Phase) (e : Edits) : Phase := { p with applied := e.applied, filesChanged := e.files }

/-- A phase with the count of a measurement. -/
def withCount (p : Phase) (after : Nat) : Phase :=
  { p with after, improvement := p.before - after, increase := after - p.before }

/-- Plans an attempt without touching the tree. -/
def plan (fr : Frame σ) (a : Attempt) (phase : Phase) : Step σ Phase := do
  enter .transforming
  let phase := { phase with dryRun := true }
  match ← Act.outcome (Act.beside (fr.registry.apply (a.assignment fr.settings))) with
  | .ok e => return withEdits phase e
  | .error f => if f.kind.isTransform then return { phase with transformError := some f.text } else throw f

/-- Whether a fault keeps an attempt from beginning, and no more than that. -/
def failsCheckpoint (k : FaultKind) : Bool := k.isBackup || k == .snapshot

/-- The phase of an attempt that a fault keeps from beginning; other faults go on. -/
def notBegun (phase : Phase) (f : Fault) : Except Fault Phase :=
  if failsCheckpoint f.kind then .ok { phase with error := some ("checkpoint failed: " ++ f.text) }
  else .error f

/-- Backs up the files of an attempt, if backups are made, and gives the name of the backup. -/
def backUp (fr : Frame σ) (a : Attempt) : Step σ (Option String) := do
  match fr.guard.backups with
  | none => return none
  | some backups =>
    let files := presentFiles (← get).2 fr.settings a.diagnostics
    let b ← Act.beside (backups.create files a.label)
    advance fun p => { p with backups := p.backups ++ [b.name] }
    return some b.name

/-- Backs up the files of an attempt and takes a checkpoint; the phase tells what went wrong. -/
def checkpoint (fr : Frame σ) (a : Attempt) (phase : Phase) : Step σ Phase := do
  enter .checkpointing
  match ← Act.outcome (backUp fr a) with
  | .error f => Act.ofResult (notBegun phase f)
  | .ok backup =>
    match ← Act.outcome (guarded (fr.guard.begin a.label (a.diagnostics.map (·.file)))) with
    | .ok () => return { phase with backup }
    | .error f => Act.ofResult (notBegun { phase with backup } f)

/-- Measures what a strategy left. -/
def remeasure (fr : Frame σ) : Step σ (Except Fault (List Diagnostic)) := do
  enter .measuring
  Act.outcome (Act.beside fr.measure)

/-- Has the strategy edit the tree and measures what it left. -/
def edit (fr : Frame σ) (a : Attempt) (phase : Phase) : Step σ (Phase × Except Fault (List Diagnostic)) := do
  enter .transforming
  match ← Act.outcome (Act.beside (fr.registry.apply (a.assignment fr.settings))) with
  | .ok e => return (withEdits phase e, ← remeasure fr)
  | .error f =>
    if f.kind == .transform then return ({ phase with transformError := some f.text }, ← remeasure fr)
    else return (phase, .error f)

/-- Whether a fault fails the attempt and no more than that. -/
def failsAttempt (k : FaultKind) : Bool := k == .transformTimeout || k.isToolchain

/-- Whether a fault says that a time limit was exceeded. -/
def isTimeout (k : FaultKind) : Bool := k == .transformTimeout || k == .toolchainTimeout

/-- Undoes the edits of an attempt that failed. -/
def undo (fr : Frame σ) (phase : Phase) : Step σ Phase := do
  enter .reverting
  guarded (fr.guard.discard phase.backup)
  return { phase with rolledBack := true }

/-- Keeps or undoes the edits of an attempt that was measured. -/
def settle (fr : Frame σ) (a : Attempt) (phase : Phase) (ds : List Diagnostic) : Step σ Phase := do
  let after := ds.length
  let phase := withCount phase after
  enter (if fr.guard.isRegression phase.before after then .reverting else .committing)
  match ← Act.outcome (guarded (fr.guard.settle a.label phase.before after phase.backup)) with
  | .ok true => return { phase with reverted := true }
  | .ok false =>
    advance fun p => { p with current := after, diagnostics := ds }
    return phase
  | .error f =>
    if f.kind == .snapshot then undo fr { phase with error := some ("commit failed: " ++ f.text) } else throw f

/-- Makes an attempt that may edit the tree. -/
def trial (fr : Frame σ) (a : Attempt) (phase : Phase) : Step σ Phase := do
  let phase ← checkpoint fr a phase
  if phase.failed then return phase
  else
    let (phase, measured) ← edit fr a phase
    match measured with
    | .ok ds => settle fr a phase ds
    | .error f =>
      if failsAttempt f.kind then
        undo fr { phase with error := some f.text, timeout := isTimeout f.kind }
      else throw f

/-- Plans an attempt or tries it, as the settings ask. -/
def work (fr : Frame σ) (a : Attempt) : Step σ Phase := do
  let blank := a.blank (← progress).current
  if fr.settings.dryRun then plan fr a blank else trial fr a blank

/-- Makes one attempt. -/
def attempt (fr : Frame σ) (a : Attempt) : Step σ Phase := do
  let start := (← get).2.clock
  let phase ← work fr a
  let passed := ((← get).2.clock - start) * 1000
  return { phase with duration := (Number.truncate? passed).getD 0 }

/-! ## Phases -/

/-- Waits between two attempts. -/
def pause (s : Settings) : Step σ Unit := do
  if (← progress).attempts != 0 && s.phaseDelay != 0 then Act.beside (Act.sleep s.phaseDelay)
  advance fun p => { p with attempts := p.attempts + 1 }

/-- Whether a category is left after one of its attempts. -/
def endsCategory (p : Progress) (phase : Phase) : Bool :=
  p.current == 0 || phase.failed || phase.reverted || phase.dryRun || phase.transformError.getD "" != "" ||
    (1 < phase.iteration && phase.improvement ≤ 0)

/-- Makes one attempt and enters its phase in the log; gives the diagnostics to go on with, if the
category is not left. -/
def round (fr : Frame σ) (a : Attempt) : Step σ (Option (List Diagnostic)) := do
  pause fr.settings
  let phase ← attempt fr a
  advance fun p => { p with phases := p.phases ++ [phase] }
  let p ← progress
  let records := recordsOf p a.category
  return if endsCategory p phase || records.isEmpty then none else some records

/-- Makes attempts at a category: at most `left` of them, the first with number `iteration`. -/
def attempts (fr : Frame σ) (c : Category) (left iteration : Nat) (records : List Diagnostic) : Step σ Unit :=
  match left with
  | 0 => return
  | left + 1 => do
    match ← round fr ⟨c, iteration, records⟩ with
    | some records => attempts fr c left (iteration + 1) records
    | none => return

/-- Remedies one category. -/
def remedy (fr : Frame σ) (c : Category) : Step σ Unit := do
  advance fun p => { p with category := some c.name }
  let records := recordsOf (← progress) c
  if records.isEmpty then advance fun p => { p with skipped := p.skipped ++ [c.name] }
  else attempts fr c fr.settings.maxIterations.toNat 1 records

/-- Remedies categories as long as diagnostics are left. -/
def remedyAll (fr : Frame σ) : List Scheduled → Step σ Unit
  | [] => return
  | s :: ss => do
    if (← progress).current == 0 then return
    else
      remedy fr s.category
      remedyAll fr ss

/-! ## Setting up and ending -/

/-- Changes the progress. -/
def note (f : Progress → Progress) : Setup σ Unit := Act.keep fun x => (f x.1, x.2)

/-- Takes the first measurement; says whether there is something to remedy, and how to measure again. -/
def analyze (s : Settings) (crew : Crew σ) : Setup σ (Option (Act (List Diagnostic))) := do
  note (·.enter .analyzing)
  let invoke ← Act.beside crew.toolchain
  let ds ← Act.beside (measure s invoke)
  note fun p => { p with
    diagnostics := ds, initial := ds.length, current := ds.length, grouping := some (Grouping.ofList ds) }
  return if ds.isEmpty then none else some (measure s invoke)

/-- Completes the crew. -/
def complete (s : Settings) (crew : Crew σ) (measure : Act (List Diagnostic)) : Act (Frame σ × σ) := do
  let registry ← crew.registry
  let held ← crew.provider
  match crew.backups with
  | some b => if !s.dryRun then b.ensure
  | none => pure ()
  return (⟨s, measure, registry, ⟨crew.snapshots, s.maxIncrease, crew.backups⟩⟩, held)

/-- Sets a run up; there is nothing to go on with when nothing is to be remedied. -/
def prepare (s : Settings) (crew : Crew σ) : Setup σ (Option (Frame σ × σ)) := do
  match ← analyze s crew with
  | none => return none
  | some measure => return some (← Act.beside (complete s crew measure))

/-- Does steps with a state of the snapshot provider, which is kept. -/
def holding {α : Type} (held : σ) (a : Step σ α) : Setup σ α := fun x =>
  let (r, y) := Act.runOn ((x.1.1, held), x.2) a
  (r, ((y.1.1, some y.1.2), y.2))

/-- Makes the schedule of a run from its first measurement. -/
def scheduled (s : Settings) (p : Progress) : Progress :=
  { p.enter .scheduling with schedule := (Grouping.ofList p.diagnostics).schedule s.disabled }

/-- The progress of a run whose phases are done. -/
def finished (p : Progress) : Progress := { p with category := none }.enter .done

/-- Makes the schedule and goes through it. -/
def goThrough (s : Settings) (frame : Frame σ) (held : σ) : Setup σ Unit := do
  note (scheduled s)
  holding held (remedyAll frame (← Act.kept).1.schedule)
  note finished

/-- Everything that a run does to the tree. -/
def body (s : Settings) (crew : Crew σ) : Setup σ Unit := do
  match ← prepare s crew with
  | none => note (·.enter .done)
  | some (frame, held) => goThrough s frame held

/-- Whether a fault ends a run with a report. -/
def endsRun (k : FaultKind) : Bool := k == .config || k.isBackup || k.isToolchain || k == .rollback

/-- The report of a run that has come to its end. -/
def report (s : Settings) (p : Progress) (w : World) : Report :=
  let duration := p.elapsed w.clock
  let remaining := (Grouping.ofList p.diagnostics).counts.map fun (c, n) => (c.name, (n : Int))
  { timestamp := w.now
    duration
    projectPath := s.projectPath
    status := Report.statusOf p.initial p.current (p.stage == .failed)
    dryRun := s.dryRun
    initial := p.initial
    final := p.current
    improvement := p.initial - p.current
    successRate := (Report.successRate? p.initial p.current).getD 0
    maxIncrease := s.maxIncrease
    phases := p.phases
    schedule := p.schedule.map ScheduleRow.ofScheduled
    recommendations := Report.recommend remaining p.phases p.diagnostics duration
    remaining
    backups := p.backups
    skipped := p.skipped
    error := p.error }

/-- Writes and posts a report as the settings ask. -/
def deliver (s : Settings) (grouping : Option Grouping) (r : Report) : Act Unit := do
  let here := (← get).here
  if r.status != "clean" && !r.dryRun then
    let _ ← r.write (s.reportFile here)
    match grouping with
    | some g => let _ ← Report.writeAnalysis g (some r) (s.analysisFile here)
    | none => pure ()
  unless s.webhook.isEmpty do
    let _ ← r.publish s.webhook

/-- Reports a run that has come to its end. -/
def conclude (s : Settings) : Setup σ Report := do
  let x ← get
  let r := report s x.1.1 x.2
  Act.beside (deliver s x.1.1.grouping r)
  return r

/-- Runs, and keeps the progress and the state of the snapshot provider. -/
def run (s : Settings) (crew : Crew σ) : Setup σ Report := do
  let start := (← get).2.clock
  note fun _ => { start }
  match ← Act.outcome (body s crew) with
  | .ok () => conclude s
  | .error f =>
    if endsRun f.kind then
      note (·.fail f.text)
      conclude s
    else throw f

/-- Runs with the crew that the settings ask for. -/
def withSettings (defaults : Defaults) (s : Settings) : Act Report := do
  let here := (← get).here
  let (r, _) ← fun w =>
    let (r, ((p, _), w)) := Act.runOn (({}, none), w) (run s (Crew.ofSettings here defaults s))
    (r.map fun r => (r, p), w)
  return r

end

end Ratchet.Run
