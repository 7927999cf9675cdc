import Ratchet.Strategy.Command
import Ratchet.Strategy.Reference

/-!
The strategies of a run by category.

Two categories have a built-in strategy; configured ones are added and take the place of those. A
category without a strategy is left as it is. A strategy that fails in a way of its own fails as a
transform, and files that it changed without saying so are added to those that it names.
-/

namespace Ratchet

/-- What a registered strategy is. -/
inductive StrategyKind
  | reference (r : Reference)
  | fixer (f : Fixer)
  | custom

/-- A strategy and what it is. -/
structure Registered where
  kind : StrategyKind
  strategy : Strategy

/-- Strategies by category, in the order in which the categories were registered first. -/
structure Registry where
  entries : List (String × Registered)

namespace Registry

/-- The strategy of a category. -/
def get? (r : Registry) (category : String) : Option Registered := r.entries.lookup category

/-- Entries with the value of one key set. -/
def put (category : String) (s : Registered) : List (String × Registered) → List (String × Registered)
  | [] => [(category, s)]
  | (c, t) :: r => if c == category then (c, s) :: r else (c, t) :: put category s r

/-- The registry with a strategy for a category. -/
def register (r : Registry) (category : String) (s : Registered) : Registry := ⟨put category s r.entries⟩

/-- The removal of unused imports. -/
def unusedImports : Registered :=
  ⟨.reference ⟨Reference.builtinModule, Reference.builtinName⟩, UnusedImports.strategy⟩

/-- The built-in strategies. -/
def builtin : Registry :=
  ⟨[(Category.importIssues.name, unusedImports), (Category.unusedCode.name, unusedImports)]⟩

/-- Loads a configured strategy; `limit` is the time limit of a foreign command without one. -/
def load (limit : Int) (category : String) : TransformSpec → Except Fault Registered
  | .reference s => do
    let r ← Reference.load category s
    return ⟨.reference r, r.strategy⟩
  | .command fields => do
    let f ← Fixer.ofFields category limit fields
    return ⟨.fixer f, f.strategy⟩

/-- The registry with configured strategies. -/
def withAll (limit : Int) (r : Registry) : List (String × TransformSpec) → Except Fault Registry
  | [] => .ok r
  | (c, spec) :: rest => do
    let s ← load limit c spec
    withAll limit (r.register c s) rest

/-- The strategies that settings ask for. -/
def ofSettings (defaults : Defaults) (s : Settings) : Except Fault Registry :=
  withAll defaults.transformTimeout builtin s.transforms

/-- Has a strategy do an assignment; any failure that is not the engine's own is one of the transform. -/
def run (s : Strategy) (a : Assignment) : Act Edits := do
  match ← Act.outcome (s a) with
  | .error f =>
    throw (if f.kind.isEngine then f
      else .wrap .transform (a.category ++ " transform failed: " ++ f.kind.label) f)
  | .ok (.foreign label) =>
    throw (.plain .transform (a.category ++ " transform returned " ++ label ++ ", expected TransformResult"))
  | .ok (.edits e) => return e

/-- Has the category's strategy do an assignment. -/
def apply (r : Registry) (a : Assignment) : Act Edits := do
  match r.get? a.category with
  | none => return {}
  | some s =>
    Act.note (.strategy a.category (a.diagnostics.map (·.location)) a.dryRun)
    if a.dryRun then run s.strategy a
    else
      let before ← Assignment.digests a.root a.files
      let e ← run s.strategy a
      let changed := Assignment.changed a.files before (← Assignment.digests a.root a.files)
      return { e with files := e.files ++ changed.filter (!e.files.contains ·) }

end Registry

end Ratchet
