import Ratchet.Json.Reader
import Ratchet.Json.Writer
import Ratchet.World

/-!
A world as a document.

The document of a world names its files with their text, the directory that it is looked at from, and
what the processes that will be started are going to do. What can be told of a world afterwards are its
files.
-/

namespace Ratchet

/-- Reads what a process does. -/
def ProcessRun.ofEntries (es : List (Datum × Datum)) : Schema.Checked ProcessRun :=
  let exit (code : Int) (output errors : String) (seconds : Float) : ProcessRun :=
    { seconds, ending := .exit code output errors }
  exit <$> Schema.field es "code" 0 Schema.int <*> Schema.field es "output" "" Schema.text <*>
    Schema.field es "errors" "" Schema.text <*> Schema.field es "seconds" 0 Schema.float

namespace World

/-- A world of files. -/
def ofFiles (here : String) (files : List (String × String)) (processes : List ProcessRun) : World :=
  let changes := files.map fun (path, s) => Change.mk (Path.absolute here path) (some (Text.encode s))
  { tree := Change.applyAll ((Tree.ensureDirectories .empty here).toOption.getD .empty) changes
    here := Path.absolute "/" here
    rooted := Path.isAbsolute_absolute here (by decide)
    processes }

/-- Reads a world. -/
def ofEntries (es : List (Datum × Datum)) : Schema.Checked World :=
  ofFiles <$> Schema.field es "here" "/" Schema.text <*>
    Schema.field es "files" [] (Schema.mapping Schema.text) <*>
    Schema.field es "processes" [] (Schema.list (Schema.record ProcessRun.ofEntries))

/-- The world that a text describes, if it describes one. -/
def ofText? (s : String) : Option World :=
  match Json.read s with
  | .ok (.map es) => match ofEntries es with
    | .ok w => some w
    | .flawed _ => none
  | _ => none

/-- The files of a world with their text. -/
def filesDatum (w : World) : Datum :=
  Datum.ofFields ((w.tree.filesBelow []).map fun (p, b) => ("/" ++ Path.ofComponents p, .text (Text.decodeLenient b)))

end World

end Ratchet
