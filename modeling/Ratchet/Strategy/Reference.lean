import Ratchet.Strategy.Catalogue
import Ratchet.Strategy.UnusedImports

/-!
References to callables.

A configured strategy may name a callable as `module:callable`, of a module in the catalogue. Of the
callables only the built-in removal of unused imports takes what a strategy is handed; any other one
refuses it when it is called.
-/

namespace Ratchet

/-- A callable named in a configuration. -/
structure Reference where
  module : String
  name : String
  deriving DecidableEq, Repr

namespace Reference

/-- The module of the built-in strategy. -/
def builtinModule : String := "remediator.transforms.strategies"

/-- The name of the built-in strategy. -/
def builtinName : String := "remove_unused_imports"

/-- The module with a name. -/
def shelf? (name : String) : Option Shelf := (Shelf.engine ++ Shelf.standard).find? (·.name == name)

/-- The names of a module and of those that it lies below, the outermost first. -/
def lineage : List String → List String
  | [] => []
  | c :: cs => c :: (lineage cs).map (c ++ "." ++ ·)

/-- Why a module cannot be had, from the outermost one on. -/
def missing? (above : Option Shelf) : List String → Option String
  | [] => none
  | n :: ns =>
    match above, shelf? n with
    | some s, none =>
      some ("No module named " ++ Text.quoted n ++
        (if s.holdsModules then "" else "; " ++ Text.quoted s.name ++ " is not a package"))
    | none, none => some ("No module named " ++ Text.quoted n)
    | _, some s => missing? (some s) ns

/-- A reference: what stands before and after the first colon. -/
def ofText? (s : String) : Option Reference :=
  match Text.cutFirst? [':'] s.toList with
  | some (m, n) => if m.isEmpty || n.isEmpty then none else some ⟨String.ofList m, String.ofList n⟩
  | none => none

/-- Whether a reference names the built-in strategy. -/
def isBuiltin (r : Reference) : Bool := r.module == builtinModule && r.name == builtinName

/-- Checks that a configured text names a callable. -/
def load (category spec : String) : Except Fault Reference :=
  match ofText? spec with
  | none => .error (.plain .config
      ("Transform for " ++ category ++ " must look like 'module:callable', got " ++ Text.quoted spec))
  | some r =>
    if r.module.toList.head? == some '.' then
      .error (.plain (.other "TypeError") ("the 'package' argument is required to perform a relative import for " ++
        Text.quoted r.module))
    else
      let cannot (why : String) : Except Fault Reference :=
        .error (.plain .config ("Cannot load transform " ++ Text.quoted spec ++ ": " ++ why))
      let names := lineage ((Text.splitAtChar '.' r.module.toList).map String.ofList)
      match missing? none names, shelf? r.module with
      | some why, _ => cannot why
      | none, none => cannot ("No module named " ++ Text.quoted r.module)
      | none, some s =>
        if s.hasCallable r.name then .ok r
        else if s.hasValue r.name then
          .error (.plain .config ("Transform " ++ Text.quoted spec ++ " is not callable"))
        else cannot ("module " ++ Text.quoted s.title ++ " has no attribute " ++ Text.quoted r.name)

/-- The strategy that a reference names. -/
def strategy (r : Reference) : Strategy :=
  if r.isBuiltin then UnusedImports.strategy
  else fun _ => throw (.plain (.other "TypeError") (r.name ++ "() got an unexpected keyword argument 'dry_run'"))

end Reference

end Ratchet
