import Ratchet.Datum.Shown
import Ratchet.Snapshot
import Ratchet.Text.Lines

/-!
Snapshots in the project's git repository.

A checkpoint commits whatever is pending and remembers the commit; a commit records the edits; a
revert resets the tree hard to the remembered commit and removes untracked files. Named files that git
ignores are remembered in memory, because neither reset nor clean touches them.
-/

namespace Ratchet

/-- What the provider of snapshots in git remembers. -/
structure GitSnapshots where
  workspace : String
  excluded : List String
  /-- The commit of the checkpoint, if there is one. -/
  commit : Option String := none
  /-- The options that supply a committer, once it is known whether they are needed. -/
  identity : Option (List String) := none
  /-- The bytes of the named files that git ignores. -/
  ignored : List (String × ByteArray) := []

namespace GitSnapshots

/-- The provider for a workspace. -/
def ofWorkspace (here workspace : String) (excludes : List String) : GitSnapshots :=
  let ws := Path.absolute here workspace
  { workspace := ws, excluded := Snapshots.excludedIn here ws excludes }

/-- What a message of a checkpoint starts with. -/
def checkpointMark : String := "checkpoint:"

/-- What a message of a commit starts with. -/
def commitMark : String := "fix:"

/-- The options that supply a committer. -/
def stranger : List String := ["-c", "user.name=remediator", "-c", "user.email=remediator@localhost"]

/-- A process that exceeded a limit that nobody set. -/
def overdue (argv : List String) : Fault :=
  .plain (.other "TimeoutExpired")
    ("Command '" ++ (Datum.ofTexts argv).inner ++ "' timed out after None seconds")

/-- A text without blanks around it. -/
def trimmed (s : String) : String := String.ofList (Text.trimList s.toList)

/-- The options that supply a committer when the repository has none of its own. -/
def identityOptions : Keeping GitSnapshots (List String) := do
  let s ← Act.kept
  match s.identity with
  | some options => return options
  | none =>
    let argv := ["git", "config", "user.email"]
    let options ← match ← Act.beside (Act.process argv s.workspace) with
      | .exit code output _ =>
        pure (if code == 0 && !(trimmed output).isEmpty then [] else stranger)
      | .refused _ => pure stranger
      | .timeout => throw (overdue argv)
    Act.keep fun s => { s with identity := some options }
    return options

/-- Runs git and gives its exit code and its output; with `check`, a code other than zero is a fault. -/
def git (check : Bool) (args : List String) : Keeping GitSnapshots (Int × String) := do
  let argv := "git" :: (← identityOptions) ++ args
  let s ← Act.kept
  match ← Act.beside (Act.process argv s.workspace) with
  | .timeout => throw (overdue argv)
  | .refused cause => throw (.wrap .snapshot "git is not available" (.system cause "git"))
  | .exit code output errors =>
    if check && code != 0 then
      throw (.plain .snapshot ("git " ++ " ".intercalate args ++ " failed: " ++ trimmed errors))
    else return (code, output)

/-- Commits all that is pending; says whether there was anything. -/
def stageAndCommit (message : String) : Keeping GitSnapshots Bool := do
  let s ← Act.kept
  let _ ← git true (["add", "-A", "--", "."] ++ s.excluded.map (":(exclude)" ++ ·))
  let (code, _) ← git false ["diff", "--cached", "--quiet"]
  if code == 0 then return false
  else
    let _ ← git true ["commit", "--no-verify", "-m", message]
    return true

/-- The current commit, if there is one. -/
def head : Keeping GitSnapshots (Option String) := do
  let (code, output) ← git false ["rev-parse", "--verify", "HEAD"]
  return if code == 0 then some (trimmed output) else none

/-- The bytes of files seen from a workspace. -/
def readAll (workspace : String) : List String → Act (List (String × ByteArray))
  | [] => return []
  | f :: fs => do
    let b ← Act.readBytes (Path.join workspace f)
    let r ← readAll workspace fs
    return (f, b) :: r.filter (·.1 != f)

/-- The bytes of the named files that git ignores. -/
def readIgnored (files : List String) : Keeping GitSnapshots (List (String × ByteArray)) := do
  let (s, w) ← get
  let there := (Snapshots.ascending (Snapshots.namedIn w.here s.workspace s.excluded files)).filter fun f =>
    w.tree.isFile (Path.join s.workspace f)
  if there.isEmpty then return []
  else
    let (_, output) ← git false (["check-ignore", "--"] ++ there)
    Act.told FaultKind.isSystem (.wrap .snapshot "Cannot snapshot ignored file")
      (Act.beside (readAll s.workspace ((Text.lineBodies output.toList).map String.ofList)))

/-- Commits what is pending and remembers the commit. -/
def checkpoint (label : String) (files : List String) : Keeping GitSnapshots Unit := do
  let message := checkpointMark ++ " " ++ label
  let _ ← stageAndCommit message
  if (← head).isNone then
    let _ ← git true ["commit", "--no-verify", "--allow-empty", "-m", message]
  let commit ← head
  Act.keep fun s => { s with commit }
  let ignored ← readIgnored files
  Act.keep fun s => { s with ignored }

/-- Forgets the checkpoint. -/
def forget (s : GitSnapshots) : GitSnapshots := { s with commit := none, ignored := [] }

/-- Records the edits. -/
def record (label : String) : Keeping GitSnapshots Unit := do
  let _ ← stageAndCommit (commitMark ++ " " ++ label)
  Act.keep forget

/-- Writes bytes back. -/
def writeBack (workspace : String) : List (String × ByteArray) → Act Unit
  | [] => return
  | (f, b) :: r => do
    Act.writeBytes (Path.join workspace f) b
    writeBack workspace r

/-- Resets the tree to the remembered commit. -/
def revert : Keeping GitSnapshots Unit := do
  let s ← Act.kept
  let commit := s.commit.getD ""
  if commit.isEmpty then throw (.plain .snapshot "No git checkpoint to revert to")
  else
    let _ ← git true ["reset", "--hard", commit]
    let _ ← git true (["clean", "-fd"] ++ s.excluded.flatMap fun p => ["-e", p])
    Act.told FaultKind.isSystem (.wrap .snapshot "Restoring ignored file failed")
      (Act.beside (writeBack s.workspace s.ignored))
    Act.keep forget

/-- The operations. -/
def operations : Snapshots GitSnapshots where
  checkpoint := checkpoint
  commit := record
  revert := revert

end GitSnapshots

end Ratchet
