import Ratchet.Settings
import Ratchet.World
import Ratchet.Yaml.Reader

/-!
Loading the settings of a project: what the caller says goes before what the configuration file says,
and that goes before the defaults.
-/

namespace Ratchet.Settings

/-- The path of a configuration file, unless the caller names one. -/
def configPath (project : String) : Option String → String
  | some p => if p.isEmpty then Path.join project fileName else p
  | none => Path.join project fileName

/-- The fault that a text denotes no value. -/
def faultOf : Yaml.NoValue → Fault
  | .unreadable message => .value message
  | .empty => .plain (.other "IndexError") "string index out of range"
  | .unknownWord word => .plain (.other "KeyError") (Text.quoted word)
  | .undated => .plain (.other "AttributeError") "'NoneType' object has no attribute 'groupdict'"
  | .notText => .plain (.other "TypeError") "expected string or bytes-like object, got 'list'"
  | .tooLarge message => .overflow message

/-- The entries of a configuration. A configuration without content has none. -/
def entriesOf (path s : String) : Except Fault (List (Datum × Datum)) :=
  match Yaml.read s with
  | .error .malformed => .error { kind := .config, message := "Could not read " ++ path, document := some .yaml }
  | .error .tooDeep => .error .tooDeep
  | .error (.noValue why) => .error (faultOf why)
  | .ok (.map es) => .ok es
  | .ok d =>
    if d.isVacant then .ok []
    else .error (.plain .config (path ++ " must contain a mapping at the top level"))

/-- Reads the configuration of a project; it has no entries if there is no such file. -/
def readConfig (project : String) (config : Option String) : Act (List (Datum × Datum)) := do
  let path := configPath project config
  if ← Act.isFile path then
    Act.told FaultKind.isSystem (.wrap .config ("Could not read " ++ path)) do
      Act.ofResult (entriesOf path (← Act.readText path))
  else return []

/-- Whether a key is a text, as the names of settings are. -/
def isName : Datum → Bool
  | .text _ | .brokenText => true
  | _ => false

/-- Checks the entries of a configuration. -/
def ofConfig (defaults : Defaults) (es : List (Datum × Datum)) : Except Fault Settings :=
  if es.all fun (k, _) => isName k then
    match ofEntries defaults es with
    | .ok s => .ok s
    | .flawed issues =>
      .error { kind := .config, message := "Invalid configuration", document := some (.validation issues) }
  else .error .badType

/-- Loads the settings of a project. The caller's settings that are nothing are left out. -/
def load (defaults : Defaults) (project : String) (config : Option String)
    (said : List (String × Datum)) : Act Settings := do
  if ← Act.isDirectory project then
    let es ← readConfig project config
    let said := said.filter fun (_, d) => !(d matches .null)
    let es := said.foldl (fun es (k, d) => Datum.putEntry (.text k) d es) es
    let here := (← get).here
    Act.ofResult (ofConfig defaults (Datum.putEntry (.text "project_path") (.text (Path.absolute here project)) es))
  else
    throw (.plain .config ("Project path does not exist or is not a directory: " ++ project))

end Ratchet.Settings
