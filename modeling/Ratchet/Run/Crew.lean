import Ratchet.Snapshot.Guard
import Ratchet.Snapshot.Provider
import Ratchet.Strategy.Registry
import Ratchet.Toolchain

/-!
What a run works with.

The crew of a run is prepared in a fixed order, each member only when it is needed: the toolchain
before the first measurement, the rest when there is something to remedy.
-/

namespace Ratchet

/-- What a run works with. -/
structure Crew (σ : Type) where
  /-- Prepares the toolchain; what comes of it runs the toolchain once. -/
  toolchain : Act (Act Observation)
  /-- Loads the strategies. -/
  registry : Act Registry
  /-- Opens the snapshot provider. -/
  provider : Act σ
  /-- What the snapshot provider does. -/
  snapshots : Snapshots σ
  /-- The store of backups, if backups are made. -/
  backups : Option Backups

namespace Crew

/-- The crew that settings ask for. -/
def ofSettings (here : String) (defaults : Defaults) (s : Settings) : Crew Provider where
  toolchain := Toolchain.invoke <$> Toolchain.ofSettings s
  registry := Act.ofResult (Registry.ofSettings defaults s)
  provider := Provider.ofSettings s
  snapshots := Provider.operations
  backups :=
    if s.backupEnabled && !s.dryRun then some (Archive.at here (s.backupRoot here) s.projectPath).operations
    else none

end Crew

end Ratchet
