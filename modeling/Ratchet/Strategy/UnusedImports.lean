import Ratchet.ImportLine
import Ratchet.Strategy
import Ratchet.Text.Lines

/-!
The built-in strategy: removal of unused imports.

A diagnostic that names an unused binding takes the binding out of the import statement on its line,
and one that says that all bindings are unused takes the statement. A line that is no import
statement is left alone.
-/

namespace Ratchet.UnusedImports

/-- The codes of an unused binding. -/
def bindingCodes : List String := ["TS6133", "TS6196"]

/-- The codes of a statement whose bindings are all unused. -/
def statementCodes : List String := ["TS6192"]

/-- The first non-empty text between single quotes. -/
def firstQuoted? : List Char → Option (List Char)
  | [] => none
  | c :: s =>
    if c == '\'' && (s.head?.map (· != '\'')).getD false && (s.dropWhile (· != '\'')).length != 0 then
      some (s.takeWhile (· != '\''))
    else firstQuoted? s

/-- What is to go from one line. -/
structure Target where
  file : String
  line : Nat
  names : List (List Char)
  whole : Bool
  deriving DecidableEq, Repr

/-- What a diagnostic wants to go. -/
def target? (d : Diagnostic) : Option Target :=
  let code := String.ofList (Text.capitalized d.code.toList)
  if statementCodes.contains code then some ⟨d.file, d.line, [], true⟩
  else if bindingCodes.contains code then
    (firstQuoted? d.message.toList).map fun n => ⟨d.file, d.line, [n], false⟩
  else none

/-- A line, with its ending, without what targets take from it, and how many bindings went. -/
def editLine (targets : List Target) (text : List Char) : List Char × Nat :=
  if targets.isEmpty then (text, 0)
  else
    let body := Text.dropEndWhile (fun c => c == '\r' || c == '\n') text
    let names := targets.flatMap fun t => t.names
    let r := ImportLine.rewrite names.contains (targets.any fun t => t.whole) body
    if r.removed == 0 then (text, 0)
    else match r.line with
      | none => ([], r.removed)
      | some b => (b ++ text.drop body.length, r.removed)

/-- A text without what targets take from its lines, and how many bindings went. -/
def edit (targets : List Target) (s : List Char) : List Char × Nat :=
  let edited := ((Text.lines s).zipIdx 1).map fun (l, n) =>
    editLine (targets.filter fun t => t.line == n) l.whole
  (edited.flatMap (·.1), (edited.map (·.2)).foldr (· + ·) 0)

/-- Edits one file of the tree; nothing comes of a file that is not there. -/
def editFile (a : Assignment) (targets : List Target) (file : String) : Act Edits := do
  match Workspace.resolve (← get).here a.root file with
  | .error _ => return {}
  | .ok path =>
    if ← Act.isFile path then
      let (text, applied) := edit (targets.filter (·.file == file)) (← Act.readExactText path).toList
      if applied == 0 then return {}
      else
        unless a.dryRun do Act.writeText path (String.ofList text)
        return ⟨[file], applied⟩
    else return {}

/-- Edits files one after the other. -/
def editFiles (a : Assignment) (targets : List Target) : List String → Act Edits
  | [] => return {}
  | f :: fs => do
    let e ← editFile a targets f
    let r ← editFiles a targets fs
    return ⟨e.files ++ r.files, e.applied + r.applied⟩

/-- The files of targets, each once. -/
def targetFiles (targets : List Target) : List String :=
  (targets.foldl (fun seen t => if seen.contains t.file then seen else t.file :: seen) []).reverse

/-- Removes the unused imports that diagnostics point at. -/
def edits (a : Assignment) : Act Edits :=
  let targets := a.diagnostics.filterMap target?
  editFiles a targets (targetFiles targets)

/-- The strategy. -/
def strategy : Strategy := fun a => .edits <$> edits a

end Ratchet.UnusedImports
