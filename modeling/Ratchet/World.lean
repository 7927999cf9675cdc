import Ratchet.Datum
import Ratchet.Instant.Span
import Ratchet.Number.Binary64
import Ratchet.Text.Lines
import Ratchet.Text.Utf8
import Ratchet.Tree

/-!
What the engine acts on.

A `World` holds the file tree, a clock that only waiting and foreign processes move, and what the
processes, containers and servers that the engine will talk to are going to do. Everything that the
engine does besides touching files is entered in a journal, in order. An `Act` is a computation in a
world that may end with a fault; what it did to the world before the fault stays done.
-/

namespace Ratchet

/-- One change that a foreign process makes to the tree: a path and its new bytes, or nothing if
what stands there is deleted. -/
structure Change where
  path : String
  bytes : Option ByteArray
  deriving DecidableEq

namespace Change

/-- The tree with a change made. The directories that lead to a new file are made, and a directory
that stands where the file goes is replaced. -/
def apply (t : Tree) (c : Change) : Tree :=
  match c.bytes with
  | none => match t.stat c.path with
    | .ok (p, _) => t.erase p
    | .error _ => t
  | some b =>
    match t.ensureDirectories (Path.parent c.path) with
    | .error _ => t
    | .ok t => match t.place c.path with
      | .ok p => (t.erase p).put p (.file b)
      | .error _ => t

/-- The tree with all changes made in order. -/
def applyAll (t : Tree) (cs : List Change) : Tree := cs.foldl apply t

end Change

/-- How a process ends. -/
inductive ProcessEnd
  /-- It exits with a code; what it wrote to its output and to its error output. -/
  | exit (code : Int) (output errors : String)
  /-- It is stopped because it exceeds its time limit. -/
  | timeout
  /-- It cannot be started. -/
  | refused (cause : SystemCause)
  deriving DecidableEq

/-- What a process does: time passes, files change, and it ends. -/
structure ProcessRun where
  seconds : Float := 0
  changes : List Change := []
  ending : ProcessEnd := .exit 0 "" ""

/-- The kinds of failures that a container host reports. -/
inductive HostFailure
  | imageMissing
  | refused (message : String)
  | lost (message : String)
  deriving DecidableEq

/-- What a container does once it runs. -/
structure ContainerRun where
  /-- Why it cannot be started. -/
  failure : Option HostFailure := none
  seconds : Float := 0
  /-- Why waiting for it fails. -/
  waitFailure : Option String := none
  /-- Its exit code, if the host tells it. -/
  code : Option Int := some 0
  /-- What it wrote, or why that cannot be had. -/
  output : Except String ByteArray := .ok .empty

/-- The host that containers run on. -/
inductive ContainerHost
  | absent (message : String)
  | ready (run : ContainerRun)

/-- What a server does with a request. -/
inductive Response
  | status (code : Int)
  | unreachable
  deriving DecidableEq

/-- What the engine asks of a container host. -/
structure ContainerSpec where
  image : String
  command : List String
  /-- The directory that the container sees as its workspace. -/
  workspace : String

/-- Something that the engine did. -/
inductive Event
  /-- A process was started in a directory, with a time limit and variables of its own. -/
  | process (argv : List String) (dir : String) (limit : Option Datum) (extras : List (String × String))
  | container (spec : ContainerSpec)
  | containerWait (limit : Datum)
  | containerRemoval
  | request (method url : String) (body : Datum)
  | sleep (seconds : Float)
  /-- The toolchain was asked for a measurement. -/
  | measurement
  /-- A strategy was handed the diagnostics at these locations. -/
  | strategy (category : String) (locations : List String) (dryRun : Bool)

/-- The universal time at which a world begins: the start of the year 2024. -/
def World.beginning : Int := Instant.daysOfDate 2024 1 1 * Instant.day

/-- What the engine acts on. -/
structure World where
  tree : Tree := .empty
  /-- The directory that relative paths are seen from. -/
  here : String := "/"
  /-- That directory is known from the root on. -/
  rooted : Path.isAbsolute here = true := by exact Path.isAbsolute_root
  /-- Seconds since the world began. -/
  clock : Float := 0
  /-- The universal time, which moves with the clock. -/
  now : Instant := .ofUniversal World.beginning
  /-- How many names have been drawn. -/
  draws : Nat := 0
  processes : List ProcessRun := []
  responses : List Response := []
  containers : ContainerHost := .absent "no daemon"
  journal : Array Event := #[]

/-- A computation on a state that may end with a fault. -/
abbrev Doing (σ α : Type) := ExceptT Fault (StateM σ) α

/-- A computation in a world that may end with a fault. -/
abbrev Act (α : Type) := Doing World α

/-- A computation in a world that keeps a state of its own beside it. -/
abbrev Keeping (σ α : Type) := Doing (σ × World) α

namespace World

/-- The world after some seconds. -/
def elapse (w : World) (seconds : Float) : World :=
  let clock := w.clock + seconds
  { w with clock, now := .ofUniversal (beginning + (Span.micros? Instant.second clock).getD 0) }

/-- A path as the tree knows it: relative paths are seen from where the world is looked at. -/
def located (w : World) (path : String) : String := if path.isEmpty then path else Path.join w.here path

/-- The world with an entry in its journal. -/
def note (w : World) (e : Event) : World := { w with journal := w.journal.push e }

end World

namespace Act

/-- Runs a computation on a state. -/
def runOn {σ α : Type} (s : σ) (a : Doing σ α) : Except Fault α × σ := (ExceptT.run a).run s

/-- A look at the world. -/
def look {α : Type} (f : World → α) : Act α := return f (← get)

/-- The value of a result, or its fault. -/
def ofResult {σ α : Type} : Except Fault α → Doing σ α
  | .ok a => return a
  | .error f => throw f

/-- What can be found out about the tree. -/
def ask {α : Type} (f : Tree → Except Fault α) : Act α := do ofResult (f (← get).tree)

/-- A change of the tree. A refused change leaves the tree as it is. -/
def edit (f : Tree → Except Fault Tree) : Act Unit := do
  let t ← ask f
  modify fun w => { w with tree := t }

/-- What a computation comes to: its value or its fault. -/
def outcome {σ α : Type} (a : Doing σ α) : Doing σ (Except Fault α) := fun s =>
  let (r, s) := runOn s a
  (.ok r, s)

/-- A computation whose fault is told from further out when its kind is one of those meant. -/
def told {σ α : Type} (meant : FaultKind → Bool) (wrap : Fault → Fault) (a : Doing σ α) : Doing σ α :=
  tryCatch a fun f => throw (if meant f.kind then wrap f else f)

/-- An act beside a state that it leaves as it is. -/
def beside {σ α : Type} (a : Act α) : Keeping σ α := fun (s, w) =>
  let (r, w) := runOn w a
  (r, (s, w))

/-- A computation that keeps a part of a larger state. -/
def within {σ τ α : Type} (part : τ → σ) (put : σ → τ → τ) (a : Keeping σ α) : Keeping τ α := fun (t, w) =>
  let (r, (s, w)) := runOn (part t, w) a
  (r, (put s t, w))

/-- The state that a computation keeps. -/
def kept {σ : Type} : Keeping σ σ := return (← get).1

/-- Changes the state that a computation keeps. -/
def keep {σ : Type} (f : σ → σ) : Keeping σ Unit := modify fun (s, w) => (f s, w)

/-- Waits. -/
def sleep (seconds : Float) : Act Unit :=
  modify fun w => (w.note (.sleep seconds)).elapse seconds

/-- Enters something in the journal. -/
def note (e : Event) : Act Unit := modify (·.note e)

/-- Draws a number that was not drawn before. -/
def draw : Act Nat := do
  let n := (← get).draws + 1
  modify fun w => { w with draws := n }
  return n

/-! ## Files -/

/-- Whether a path leads to a file. -/
def isFile (path : String) : Act Bool := look fun w => w.tree.isFile (w.located path)

/-- Whether a path leads to a directory. -/
def isDirectory (path : String) : Act Bool := look fun w => w.tree.isDirectory (w.located path)

/-- Whether a path leads to anything. -/
def pathExists (path : String) : Act Bool := look fun w => w.tree.pathExists (w.located path)

/-- The bytes of a file. -/
def readBytes (path : String) : Act ByteArray := do ask (·.read ((← get).located path))

/-- The text of a file, with its line breaks as they are. -/
def readExactText (path : String) : Act String := do
  let b ← readBytes path
  match Text.decode? b with
  | some s => return s
  | none => throw (.encoding b)

/-- The text of a file, with every line break as a line feed. -/
def readText (path : String) : Act String := do
  return String.ofList (Text.unifyBreaks (← readExactText path).toList)

/-- Writes the bytes of a file. -/
def writeBytes (path : String) (b : ByteArray) : Act Unit := do edit (·.write ((← get).located path) b)

/-- Writes a text file. -/
def writeText (path s : String) : Act Unit := writeBytes path (Text.encode s)

/-- Makes a directory and all that lead to it, unless they are there. -/
def ensureDirectories (path : String) : Act Unit := do edit (·.ensureDirectories ((← get).located path))

/-! ## Processes, containers and servers -/

/-- Runs a process to its end. -/
def process (argv : List String) (dir : String) (limit : Option Datum := none)
    (extras : List (String × String) := []) : Act ProcessEnd := do
  note (.process argv dir limit extras)
  let p := (← get).processes.headD {}
  modify fun w => { w.elapse p.seconds with
    tree := Change.applyAll w.tree p.changes, processes := w.processes.tail }
  return p.ending

/-- Sends a request to a server. -/
def request (method url : String) (body : Datum) : Act Response := do
  note (.request method url body)
  let r := (← get).responses.headD (.status 200)
  modify fun w => { w with responses := w.responses.tail }
  return r

end Act

end Ratchet
