import Ratchet.Diagnostic
import Ratchet.Digest
import Ratchet.Workspace

/-!
Strategies.

A strategy is handed the diagnostics of its category and the tree's root, edits the tree or only plans
to, and says how many edits it made and which files they changed. The files of diagnostics are
compared by digest before and after, so that a change is found whether or not it is declared.
-/

namespace Ratchet

/-- What a strategy did. -/
structure Edits where
  files : List String := []
  applied : Int := 0
  deriving DecidableEq, Repr

/-- What a strategy answers: its edits, or a value of another type, which is a fault of the strategy. -/
inductive StrategyAnswer
  | edits (e : Edits)
  | foreign (typeLabel : String)
  deriving DecidableEq, Repr

/-- What a strategy is handed. -/
structure Assignment where
  category : String
  diagnostics : List Diagnostic
  /-- The root of the tree. -/
  root : String
  /-- Whether the strategy only plans its edits. -/
  dryRun : Bool := false
  deriving DecidableEq, Repr

/-- What a strategy does with an assignment. -/
abbrev Strategy := Assignment → Act StrategyAnswer

namespace Assignment

/-- The files of the diagnostics, each once. -/
def files (a : Assignment) : List String := Diagnostic.files a.diagnostics

/-- The digest of each file that belongs to the tree; nothing for a file that is not there. -/
def digests (root : String) : List String → Act (List (String × Option String))
  | [] => return []
  | f :: fs => do
    match Workspace.resolve (← get).here root f with
    | .error _ => digests root fs
    | .ok path =>
      let digest ← if ← Act.isFile path then some <$> (Digest.sha256 <$> Act.readBytes path) else pure none
      return (f, digest) :: (← digests root fs)

/-- The files whose digests differ. -/
def changed (files : List String) (before after : List (String × Option String)) : List String :=
  files.filter fun f => (before.lookup f).join != (after.lookup f).join

end Assignment

end Ratchet
