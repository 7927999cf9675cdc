import Ratchet.World

/-!
The files of a workspace.

A path belongs to a workspace when its normal form stays at or below the workspace's root. A walk
lists the files of a workspace: in every directory first its own files and then those of its
subdirectories, each in ascending order. It leaves out what foreign packages and version control
keep at any depth, and what is made from the sources when it lies at the top.
-/

namespace Ratchet.Workspace

/-- The directories that no walk enters. -/
def vendorNames : List String := ["node_modules", ".git"]

/-- The directories that no walk enters at the top of a workspace. -/
def generatedNames : List String :=
  ["__pycache__", ".venv", "venv", "dist", "build", "bin", "obj", ".tox", ".mypy_cache", ".pytest_cache",
    "site-packages", "logs"]

/-- The path that another one denotes in a workspace. -/
def resolve (here root path : String) : Except Fault String :=
  match Path.within? here root path with
  | some p => .ok p
  | none => .error (.value ("Path escapes workspace: " ++ path))

/-- Whether a walk reaches the file at a place below the root. -/
def reaches (extra : List String) (p : Place) : Bool :=
  match p.dropLast with
  | [] => true
  | top :: dirs =>
    !generatedNames.contains top && !extra.contains top && !(top :: dirs).any vendorNames.contains

/-- Whether one list of names comes before another: name by name, and a list before its extensions. -/
def namesBefore : List String → List String → Bool
  | [], _ => true
  | _ :: _, [] => false
  | a :: as, b :: bs => a < b || (a == b && namesBefore as bs)

/-- Whether a walk comes to one place before another. -/
def walkBefore (p q : Place) : Bool :=
  if p.dropLast == q.dropLast then p.getLastD "" ≤ q.getLastD ""
  else namesBefore p.dropLast q.dropLast

/-- The places of the files that a walk of a workspace comes to, in its order. -/
def places (t : Tree) (extra : List String) (root : Place) : List Place :=
  (((t.filesBelow root).map (·.1)).filter (reaches extra)).mergeSort walkBefore

/-- The paths of the files that a walk of a workspace comes to. -/
def files (t : Tree) (extra : List String) (root : String) : List String :=
  match t.stat root with
  | .ok (p, .directory) => (places t extra p).map Path.ofComponents
  | _ => []

/-- Walks a workspace. -/
def walk (root : String) : Act (List String) := Act.look fun w => files w.tree [] (Path.absolute w.here root)

end Ratchet.Workspace
