import Ratchet.Settings
import Ratchet.Snapshot.Files
import Ratchet.Snapshot.Git

/-!
Which snapshots a run takes: none when it only plans or is told so, those of git when it is told so or
the project is a repository, and else those in memory.
-/

namespace Ratchet

/-- A snapshot provider with what it remembers. -/
inductive Provider
  | none
  | files (s : FileSnapshots)
  | git (s : GitSnapshots)

namespace Provider

/-- The name of a provider. -/
def name : Provider → String
  | none => "none"
  | files _ => "files"
  | git _ => "git"

/-- The paths that a provider excludes. -/
def excluded? : Provider → Option (List String)
  | none => .none
  | files s => some s.excluded
  | git s => some s.excluded

/-- Does one of the operations with the state of the provider that there is. -/
def doing (onFiles : Keeping FileSnapshots Unit) (onGit : Keeping GitSnapshots Unit) : Keeping Provider Unit := do
  match ← Act.kept with
  | none => return
  | files s => Act.within (fun | files s => s | _ => s) (fun s _ => files s) onFiles
  | git s => Act.within (fun | git s => s | _ => s) (fun s _ => git s) onGit

/-- The operations. -/
def operations : Snapshots Provider where
  checkpoint label files := doing (FileSnapshots.checkpoint label files) (GitSnapshots.checkpoint label files)
  commit label := doing (FileSnapshots.commit label) (GitSnapshots.record label)
  revert := doing FileSnapshots.revert GitSnapshots.revert

/-- The provider that settings ask for. -/
def ofSettings (s : Settings) : Act Provider := do
  if s.dryRun || s.snapshotProvider == "none" then return none
  else
    let here := (← get).here
    let excludes := [s.backupRoot here, s.reportFile here, s.analysisFile here]
    let choice ←
      if s.snapshotProvider == "auto" then
        if ← Act.isDirectory (Path.join s.projectPath ".git") then pure "git" else pure "files"
      else pure s.snapshotProvider
    return if choice == "git" then git (.ofWorkspace here s.projectPath excludes)
      else files (.ofWorkspace here s.projectPath excludes)

end Provider

end Ratchet
