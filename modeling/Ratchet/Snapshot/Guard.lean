import Ratchet.Backup.Archive
import Ratchet.Snapshot

/-!
The guard against regression.

An attempt is kept only if the count of diagnostics grew by no more than the allowed increase;
otherwise, and when the attempt failed, its edits are undone. If the snapshot provider cannot undo
them, the attempt's backup is restored; if that is not possible either, the fault is final.
-/

namespace Ratchet

/-- What guards the attempts of a run. -/
structure Guard (σ : Type) where
  snapshots : Snapshots σ
  /-- The greatest increase of the count that is allowed. -/
  maxIncrease : Int
  /-- The store of the attempts' backups, if there is one. -/
  backups : Option Backups := none

namespace Guard

variable {σ : Type}

/-- Whether the count grew by more than is allowed. -/
def isRegression (g : Guard σ) (before after : Int) : Bool := g.maxIncrease < after - before

/-- Takes a checkpoint before an attempt. -/
def begin (g : Guard σ) (label : String) (files : List String) : Keeping σ Unit :=
  g.snapshots.checkpoint label files

/-- Restores the backup after the snapshot provider failed to undo the edits. -/
def fallBack (g : Guard σ) (backup : Option String) (f : Fault) : Keeping σ Unit :=
  match g.backups, backup with
  | some backups, some name => do
    let _ ← Act.told FaultKind.isBackup
      (.wrap .rollback ("Revert failed and backup " ++ name ++ " could not be restored"))
      (Act.beside (backups.restore name))
  | _, _ => throw (.wrap .rollback "Revert failed and no backup is available" f)

/-- Undoes the edits of an attempt. -/
def rollback (g : Guard σ) (backup : Option String) : Keeping σ Unit := do
  match ← Act.outcome g.snapshots.revert with
  | .ok () => return
  | .error f => if f.kind == .snapshot then g.fallBack backup f else throw f

/-- Keeps or undoes the edits of an attempt that was measured; says whether they were undone. -/
def settle (g : Guard σ) (label : String) (before after : Int) (backup : Option String) : Keeping σ Bool := do
  if g.isRegression before after then
    g.rollback backup
    return true
  else
    g.snapshots.commit label
    return false

/-- Undoes the edits of an attempt that failed. -/
def discard (g : Guard σ) (backup : Option String) : Keeping σ Unit := g.rollback backup

end Guard

end Ratchet
