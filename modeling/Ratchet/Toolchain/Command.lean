import Ratchet.Datum.Shown
import Ratchet.Settings
import Ratchet.Text.Wildcard
import Ratchet.Text.Words
import Ratchet.World

/-!
Which command checks a project.

A configured command goes before everything else. Without one the command follows from the kind of
the project, which is told by the files at its root, the first sign in a fixed order.
-/

namespace Ratchet

/-- The kinds of projects that have a check command of their own. -/
inductive ProjectKind
  | typescript
  | dotnet
  deriving DecidableEq, Repr

namespace ProjectKind

/-- The name of a kind. -/
def name : ProjectKind → String
  | typescript => "typescript"
  | dotnet => "dotnet"

/-- The kind with a name. -/
def ofName? (s : String) : Option ProjectKind := [typescript, dotnet].find? (·.name == s)

/-- The command that checks a project of a kind. -/
def argv : ProjectKind → List String
  | typescript => ["npx", "tsc", "--noEmit", "--pretty", "false"]
  | dotnet => ["dotnet", "build", "-nologo", "-clp:NoSummary"]

/-- The signs of the kinds, in the order in which they count. A sign may be a pattern. -/
def signs : List (String × ProjectKind) :=
  [("tsconfig.json", typescript), ("*.sln", dotnet), ("*.csproj", dotnet), ("*.fsproj", dotnet),
    ("package.json", typescript)]

/-- Whether something stands at a path whose components, read from the directory `dir` on, may be
patterns. -/
def anyMatch (t : Tree) (dir : String) : List String → Bool
  | [] => true
  | c :: cs =>
    if Text.Wildcard.isPattern c.toList then
      let names := match t.stat dir with
        | .ok (p, .directory) => t.namesAt p
        | _ => []
      (names.filter fun n => Text.Wildcard.fitsName c.toList n.toList).any fun n =>
        (cs.isEmpty || t.isDirectory (Path.join dir n)) && anyMatch t (Path.join dir n) cs
    else anyMatch t (dir ++ (if dir == "/" then "" else "/") ++ c) cs

/-- Whether a project shows a sign. -/
def hasSign (t : Tree) (root sign : String) : Bool :=
  let path := Path.join root sign
  if Text.Wildcard.isPattern sign.toList then anyMatch t "/" ((Path.components path).filter (· != ""))
  else t.isFile path

/-- The kind of a project. -/
def detect (t : Tree) (root : String) : Option ProjectKind :=
  if t.isDirectory root then (signs.find? fun (sign, _) => hasSign t root sign).map (·.2) else none

end ProjectKind

namespace Command

/-- The words of a command line. -/
def wordsOf (s : String) : Except Fault (List String) :=
  match Text.words s with
  | .ok ws => .ok ws
  | .error e => .error (.value e.message)

/-- The words of a command. -/
def argv : Command → Except Fault (List String)
  | line s => wordsOf s
  | words ws => .ok ws

/-- The words of a command that stands in a document: a line, or a list of values. -/
def argvOfDatum : Datum → Except Fault (List String)
  | .text s => wordsOf s
  | .list ds => .ok (ds.map Datum.shown)
  | .null => .ok []
  | d => .error (.plain (.other "AttributeError") ("'" ++ d.typeLabel ++ "' object has no attribute 'read'"))

/-- The words of the command that checks a project: the configured words if there are any, and else
those of the project's kind. -/
def forProject (configured : List String) (kind : Option String) : Except Fault (List String) :=
  if !configured.isEmpty then .ok configured
  else match kind.bind ProjectKind.ofName? with
    | some k => .ok k.argv
    | none => .error (.plain .config ("No check command for project type " ++
        ((kind.map Text.quoted).getD "None") ++ "; set toolchain_command or REMEDIATOR_TOOLCHAIN_COMMAND"))

end Command

end Ratchet
