import Ratchet.Snapshot

/-!
Snapshots in memory: the bytes of every file that a walk of the workspace comes to, and of the named
files wherever they lie. A revert removes the files that came and writes back those that went or
changed.
-/

namespace Ratchet

/-- What the provider of snapshots in memory remembers. -/
structure FileSnapshots where
  workspace : String
  excluded : List String
  /-- The bytes of the files at the checkpoint, if there is one. -/
  held : Option (List (String × ByteArray)) := none
  /-- The named files. -/
  named : List String := []

namespace FileSnapshots

/-- The provider for a workspace. -/
def ofWorkspace (here workspace : String) (excludes : List String) : FileSnapshots :=
  let ws := Path.absolute here workspace
  { workspace := ws, excluded := Snapshots.excludedIn here ws excludes }

/-- The files of the tree that count: those of a walk without the excluded ones, and the named ones. -/
def files (s : FileSnapshots) (w : World) : List String :=
  let walked := (Workspace.files w.tree [] s.workspace).filter (!Snapshots.isExcluded s.excluded ·)
  Snapshots.ascending (walked ++ s.named)

/-- The bytes of those of the paths that lead to files. -/
def readAll (s : FileSnapshots) : List String → Act (List (String × ByteArray))
  | [] => return []
  | f :: fs => do
    let path := Path.join s.workspace f
    if ← Act.isFile path then
      let b ← Act.readBytes path
      return (f, b) :: (← s.readAll fs)
    else s.readAll fs

/-- Removes those of the paths that lead to files but are not remembered. -/
def removeNew (s : FileSnapshots) (held : List (String × ByteArray)) : List String → Act Unit
  | [] => return
  | f :: fs => do
    let path := Path.join s.workspace f
    if (held.lookup f).isNone && (← Act.isFile path) then Act.edit (·.remove path)
    s.removeNew held fs

/-- Writes remembered bytes back where they are not as they were. -/
def writeBack (s : FileSnapshots) : List (String × ByteArray) → Act Unit
  | [] => return
  | (f, b) :: r => do
    let path := Path.join s.workspace f
    let same ← Act.look fun w => match w.tree.stat path with
      | .ok (_, .file now) => now == b
      | _ => false
    unless same do
      Act.ensureDirectories (Path.parent path)
      Act.writeBytes path b
    s.writeBack r

/-- Remembers the tree. -/
def checkpoint (_label : String) (files : List String) : Keeping FileSnapshots Unit := do
  let (s, w) ← get
  let s := { s with named := Snapshots.namedIn w.here s.workspace s.excluded files }
  Act.keep fun _ => s
  let held ← Act.told FaultKind.isSystem (.wrap .snapshot "Cannot snapshot tree")
    (Act.beside (s.readAll (s.files w)))
  Act.keep fun s => { s with held := some held }

/-- Forgets the checkpoint. -/
def forget (s : FileSnapshots) : FileSnapshots := { s with held := none, named := [] }

/-- Keeps the edits. -/
def commit (_label : String) : Keeping FileSnapshots Unit := Act.keep forget

/-- Undoes the edits. -/
def revert : Keeping FileSnapshots Unit := do
  let (s, w) ← get
  match s.held with
  | none => throw (.plain .snapshot "No file checkpoint to revert to")
  | some held =>
    Act.told FaultKind.isSystem (.wrap .snapshot "File revert failed") do
      Act.beside (s.removeNew held (s.files w))
      Act.beside (s.writeBack held)
    Act.keep forget

/-- The operations. -/
def operations : Snapshots FileSnapshots where
  checkpoint := checkpoint
  commit := commit
  revert := revert

end FileSnapshots

end Ratchet
