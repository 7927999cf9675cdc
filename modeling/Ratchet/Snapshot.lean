import Ratchet.Workspace

/-!
Snapshots of a tree.

A snapshot provider remembers the tree at a checkpoint; the edits made after it are then kept by a
commit or undone by a revert. What a provider remembers is a state of its own. Paths that a provider
excludes are neither remembered nor undone.
-/

namespace Ratchet

/-- The operations of a snapshot provider that keeps a state `σ`. -/
structure Snapshots (σ : Type) where
  /-- Remembers the tree, and the named files wherever they lie. -/
  checkpoint (label : String) (files : List String) : Keeping σ Unit
  /-- Keeps the edits made since the checkpoint. -/
  commit (label : String) : Keeping σ Unit
  /-- Undoes the edits made since the checkpoint. -/
  revert : Keeping σ Unit

namespace Snapshots

/-- Whether a path is one of the excluded paths or lies below one. -/
def isExcluded (excluded : List String) (path : String) : Bool := excluded.any fun p => Path.isBelow p path

/-- The excluded paths that lie in the workspace, seen from there. -/
def excludedIn (here workspace : String) (paths : List String) : List String :=
  (paths.map fun p => String.ofList (Text.dropEndWhile (· == '/') (Path.clean here workspace p).toList)).filter
    fun p => !p.isEmpty && !"..".toList.isPrefixOf p.toList && !Path.isAbsolute p

/-- The named files that lie in the workspace and are not excluded, seen from there. -/
def namedIn (here workspace : String) (excluded files : List String) : List String :=
  (files.map (Path.clean here workspace)).filter fun f =>
    (Path.within? here workspace f).isSome && !f.isEmpty && !isExcluded excluded f

/-- Distinct paths in ascending order. -/
def ascending (paths : List String) : List String := (paths.mergeSort (· ≤ ·)).eraseDups

end Snapshots

end Ratchet
