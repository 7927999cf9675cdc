import Ratchet.Strategy
import Ratchet.Toolchain.Command

/-!
Strategies that run a foreign command in the tree.

The command is told the category and the files by variables of its environment. The files that it
changed are those of the diagnostics whose digests differ afterwards.
-/

namespace Ratchet

/-- A foreign command that remedies a category. -/
structure Fixer where
  argv : List String
  category : String
  /-- The time limit in seconds, as configured. -/
  limit : Datum

namespace Fixer

/-- How much of what a failing command wrote is shown. -/
def shownTail : Nat := 500

/-- The end of a text without blanks around it. -/
def tail (s : String) : String :=
  let cs := Text.trimList s.toList
  String.ofList (cs.drop (cs.length - shownTail))

/-- The strategy. -/
def strategy (f : Fixer) : Strategy := fun a => do
  if a.dryRun then return .edits {}
  else
    let before ← Assignment.digests a.root a.files
    let extras := [("REMEDIATOR_CATEGORY", f.category), ("REMEDIATOR_FILES", "\n".intercalate a.files)]
    match ← Act.process f.argv a.root (some f.limit) extras with
    | .timeout =>
      throw (.plain .transformTimeout
        ("Fixer " ++ " ".intercalate f.argv ++ " exceeded " ++ f.limit.shown ++ "s"))
    | .refused cause =>
      let name := f.argv.headD ""
      throw (.wrap .transform ("Cannot run fixer " ++ name) (.system cause name))
    | .exit code output errors =>
      if code != 0 then
        throw (.plain .transform ("Fixer exited with " ++ toString code ++ ": " ++
          tail (if errors.isEmpty then output else errors)))
      else
        let changed := Assignment.changed a.files before (← Assignment.digests a.root a.files)
        return .edits ⟨changed, changed.length⟩

/-- The fixer that a configuration describes; `limit` holds where it says none. -/
def ofFields (category : String) (limit : Int) (fields : List (String × Datum)) : Except Fault Fixer :=
  match fields.lookup "command" with
  | none => .error (.plain .config ("Transform for " ++ category ++ " needs a 'command' key"))
  | some d => do
    let argv ← Command.argvOfDatum d
    if argv.isEmpty then .error (.plain .config "Transform command must not be empty")
    else return ⟨argv, category, (fields.lookup "timeout").getD (.int limit)⟩

end Fixer

end Ratchet
