import Ratchet.Toolchain.Command

/-!
Running the toolchain.

The check command runs in the project's directory, or in a container that sees the project as its
workspace. Either way it has a time limit, and what comes of it is its exit code and all that it
wrote. A toolchain that cannot be started, or that exceeds its limit, is a fault.
-/

namespace Ratchet

/-- What one run of the toolchain showed. -/
structure Observation where
  code : Int
  output : String
  seconds : Float := 0
  argv : List String := []

/-- A check command that is ready to run. -/
structure Toolchain where
  argv : List String
  workspace : String
  /-- The time limit in seconds. -/
  limit : Datum
  /-- The image of the container that the command runs in, if it does. -/
  image : Option String := none

namespace Toolchain

/-- Seconds that have passed since a reading of the clock, to three places. -/
def secondsSince (start : Float) : Act Float := do return Number.roundTo 3 ((← get).clock - start)

/-- What is said when the time limit is exceeded. -/
def limitText (t : Toolchain) : String := "exceeded " ++ t.limit.shown ++ "s"

/-- Runs the command as a process. -/
def runLocal (t : Toolchain) : Act Observation := do
  let start := (← get).clock
  match ← Act.process t.argv t.workspace (some t.limit) with
  | .timeout =>
    throw (.plain .toolchainTimeout ("Toolchain " ++ t.limitText ++ ": " ++ " ".intercalate t.argv))
  | .refused cause =>
    let name := t.argv.headD ""
    throw (.plain .toolchainUnavailable ("Cannot run " ++ name ++ ": " ++ (Fault.system cause name).message))
  | .exit code output _ => return ⟨code, output, ← secondsSince start, t.argv⟩

/-- The fault of a container host. -/
def hostFault (image : String) : HostFailure → Fault
  | .imageMissing => .plain .toolchainUnavailable ("Docker image '" ++ image ++ "' not found")
  | .refused m => .plain .toolchainUnavailable ("Docker API error: " ++ m)
  | .lost m => .plain .toolchainUnavailable ("Docker is not available: " ++ m)

/-- Whether a number of seconds reaches a limit. -/
def reaches (seconds : Float) : Datum → Bool
  | .int n => Number.ofInt n ≤ seconds
  | .float x => x ≤ seconds
  | _ => false

/-- Waits for a container that runs and reads what it wrote. -/
def awaitContainer (t : Toolchain) (image : String) (start : Float) (run : ContainerRun) :
    Act (Int × ByteArray) := do
  Act.note (.containerWait t.limit)
  modify (·.elapse run.seconds)
  match run.waitFailure with
  | some m =>
    if reaches ((← get).clock - start) t.limit then
      throw (.plain .toolchainTimeout ("Sandbox toolchain " ++ t.limitText))
    else throw (.plain .toolchain ("Sandbox wait failed: " ++ m))
  | none => match run.output with
    | .error m => throw (hostFault image (.lost m))
    | .ok b => return (run.code.getD (-1), b)

/-- Runs the command in a container, which is removed in any case. -/
def runContained (t : Toolchain) (image : String) : Act Observation := do
  let start := (← get).clock
  match (← get).containers with
  | .absent m => throw (hostFault image (.lost m))
  | .ready run =>
    Act.note (.container ⟨image, t.argv, t.workspace⟩)
    match run.failure with
    | some f => throw (hostFault image f)
    | none =>
      let ended ← Act.outcome (awaitContainer t image start run)
      Act.note .containerRemoval
      let (code, b) ← Act.ofResult ended
      return ⟨code, Text.decodeLenient b, ← secondsSince start, t.argv⟩

/-- Runs the toolchain. -/
def invoke (t : Toolchain) : Act Observation :=
  match t.image with
  | none => t.runLocal
  | some image => t.runContained image

/-- The toolchain that settings ask for. -/
def ofSettings (s : Settings) : Act Toolchain := do
  let w ← get
  let kind := ProjectKind.detect w.tree s.projectPath
  let configured ← Act.ofResult s.toolchainCommand.argv
  let argv ← Act.ofResult (Command.forProject configured (kind.map ProjectKind.name))
  return {
    argv, workspace := Path.absolute w.here s.projectPath, limit := .int s.timeout
    image := if s.sandboxImage.isEmpty then none else some s.sandboxImage }

end Toolchain

end Ratchet
