import Ratchet.Number.Reading
import Ratchet.Text.Similar
import Ratchet.World

/-!
The shape of a command line.

A command takes options, which may stand in any order and say what they are, and arguments, which are
told by their order. The words of a command line are first sorted into options and the rest, by their
spelling alone; then every value is checked, in the order in which the options were given, the
arguments after them. The first thing that is wrong is the misuse that is told.
-/

namespace Ratchet.CommandLine

/-- What a value has to be. -/
inductive Expected
  | text
  | integer
  | number
  /-- A path that is not one of a directory; whether something has to stand there. -/
  | file (there : Bool)
  /-- A path that is not one of a file; whether something has to stand there. -/
  | directory (there : Bool)
  deriving DecidableEq, Repr

/-- An option: what it is about, its spellings, and what its value has to be, unless it is a flag. -/
structure OptionRule where
  field : String
  spellings : List String
  expected : Option Expected := none
  deriving DecidableEq, Repr

/-- An argument: what it is about, the name it is shown by, and what its value has to be. -/
structure ArgumentRule where
  field : String
  shown : String
  expected : Expected
  deriving DecidableEq, Repr

/-- The shape of a command. -/
structure Shape where
  options : List OptionRule := []
  arguments : List ArgumentRule := []
  /-- The commands below it, if it is a group. -/
  commands : List String := []
  deriving DecidableEq, Repr

/-- What can be wrong with a command line. -/
inductive Misuse
  | noSuchOption (word : String) (close : List String)
  | noSuchCommand (word : String) (close : List String)
  | commandMissing
  /-- The words of a group end before they have begun. -/
  | nothingAsked
  | valueMissing (option : String)
  | valueUnwanted (option : String)
  | argumentMissing (shown : String)
  | badValue (shown problem : String)
  | unexpected (words : List String)
  | choiceMissing (message : String)
  deriving DecidableEq, Repr

namespace Misuse

/-- What is offered instead of a word that nobody knows. -/
def offer : List String → String
  | [] => ""
  | [w] => " Did you mean " ++ Text.quoted w ++ "?"
  | ws => " (Did you mean one of: " ++ ", ".intercalate (ws.map Text.quoted) ++ "?)"

/-- The words for a misuse. A group without words only explains itself. -/
def message? : Misuse → Option String
  | noSuchOption w close => some ("No such option " ++ Text.quoted w ++ "." ++ offer close)
  | noSuchCommand w close => some ("No such command " ++ Text.quoted w ++ "." ++ offer close)
  | commandMissing => some "Missing command."
  | nothingAsked => none
  | valueMissing o => some ("Option " ++ Text.quoted o ++ " requires an argument.")
  | valueUnwanted o => some ("Option " ++ Text.quoted o ++ " does not take a value.")
  | argumentMissing a => some ("Missing argument '" ++ a ++ "'.")
  | badValue shown problem => some ("Invalid value for '" ++ shown ++ "': " ++ problem)
  | unexpected ws =>
    some ("Got unexpected extra argument" ++ (if ws.length == 1 then "" else "s") ++ " (" ++ " ".intercalate ws ++ ")")
  | choiceMissing m => some m

end Misuse

/-- An option that was given, and its value, if it takes one. -/
structure Given where
  rule : OptionRule
  value : Option String
  deriving DecidableEq, Repr

/-- The words of a command line, sorted. -/
structure Sorted where
  given : List Given := []
  rest : List String := []
  deriving DecidableEq, Repr

namespace Shape

/-- Every command can be asked what it is for. -/
def help : OptionRule := { field := "help", spellings := ["--help"] }

/-- All options of a command. -/
def allOptions (s : Shape) : List OptionRule := s.options ++ [help]

/-- Whether a spelling is one dash and one letter. -/
def isShort (spelling : String) : Bool := spelling.length == 2

/-- The option with a long spelling. -/
def long? (s : Shape) (word : String) : Option OptionRule :=
  s.allOptions.find? fun o => o.spellings.any fun x => x == word && !isShort x

/-- The option with a short spelling. -/
def short? (s : Shape) (word : String) : Option OptionRule :=
  s.allOptions.find? fun o => o.spellings.any fun x => x == word && isShort x

/-- The long spellings of all options. -/
def longSpellings (s : Shape) : List String :=
  s.allOptions.flatMap fun o => o.spellings.filter fun x => !isShort x

/-- Options read from the start of a command line, and the words after them, which are no more than
there were. -/
abbrev Read (ws : List String) := List Given × { rest : List String // rest.length ≤ ws.length }

/-- An option with the value that is attached to it, or else with the next word as its value. -/
def withValue (o : OptionRule) (word : String) (attached : Option String) (ws : List String) :
    Except Misuse (Read ws) :=
  match o.expected, attached with
  | none, none => .ok ([⟨o, none⟩], ⟨ws, Nat.le_refl _⟩)
  | none, some _ => .error (.valueUnwanted word)
  | some _, some v => .ok ([⟨o, some v⟩], ⟨ws, Nat.le_refl _⟩)
  | some _, none => match ws with
    | [] => .error (.valueMissing word)
    | v :: ws => .ok ([⟨o, some v⟩], ⟨ws, Nat.le_succ _⟩)

/-- Short options written in one word: flags, and at the end one that takes the remaining letters or
else the next word as its value. -/
def cluster (s : Shape) (ws : List String) : List Char → Except Misuse (Read ws)
  | [] => .ok ([], ⟨ws, Nat.le_refl _⟩)
  | c :: cs =>
    let word := "-" ++ String.singleton c
    match s.short? word with
    | none => .error (.noSuchOption word [])
    | some o =>
      if o.expected.isSome then
        withValue o word (if cs.isEmpty then none else some (String.ofList cs)) ws
      else (s.cluster ws cs).map fun (gs, r) => (⟨o, none⟩ :: gs, r)

/-- The options that a word starting with a dash stands for. -/
def readOption (s : Shape) (word : String) (ws : List String) : Except Misuse (Read ws) :=
  let (name, attached) := match Text.cutFirst? ['='] word.toList with
    | some (a, b) => (String.ofList a, some (String.ofList b))
    | none => (word, none)
  match s.long? name with
  | some o => withValue o name attached ws
  | none =>
    if word.startsWith "--" then .error (.noSuchOption name (Text.closeWords name s.longSpellings))
    else s.cluster ws (word.toList.drop 1)

/-- Whether a word is meant as an option. -/
def isOption (word : String) : Bool := word.startsWith "-" && 1 < word.length

/-- Sorts words into options and the rest. After two dashes there are no more options; in a group, none
after the first other word. -/
def sort (s : Shape) : List String → Except Misuse Sorted
  | [] => .ok {}
  | w :: ws =>
    if w == "--" then .ok { rest := ws }
    else if isOption w then
      match s.readOption w ws with
      | .error m => .error m
      | .ok (gs, ⟨rest, _⟩) =>
        (s.sort rest).map fun r => { r with given := gs ++ r.given }
    else if !s.commands.isEmpty then .ok { rest := w :: ws }
    else (s.sort ws).map fun r => { r with rest := w :: r.rest }
  termination_by ws => ws.length
  decreasing_by
    · exact Nat.lt_succ_of_le (by assumption)
    · exact Nat.lt_succ_self _

end Shape

/-! ## Values -/

namespace Expected

/-- What is wrong with a path. -/
def pathProblem (name path : String) (problem : String) : String :=
  name ++ " " ++ Text.quoted path ++ " " ++ problem

/-- Checks a path. -/
def checkPath (name path : String) (there : Bool) (wrong : Entry → Option String) : Act (Except String Datum) := do
  if path.toList.contains '\x00' then throw .zeroInPath
  else
    match ← Act.look fun w => w.tree.stat (w.located path) with
    | .error _ => return if there then .error (pathProblem name path "does not exist.") else .ok (.text path)
    | .ok (_, e) => return match wrong e with
      | some problem => .error (pathProblem name path problem)
      | none => .ok (.text path)

/-- Checks a value: the value, or what is wrong with it. -/
def check (value : String) : Expected → Act (Except String Datum)
  | text => return .ok (.text value)
  | integer => return match Number.readInt value with
    | .ok n => .ok (.int n)
    | .error _ => .error (Text.quoted value ++ " is not a valid integer.")
  | number => return match Number.readFloat? value with
    | some x => .ok (.float x)
    | none => .error (Text.quoted value ++ " is not a valid float.")
  | file there => checkPath "File" value there fun
    | .directory => some "is a directory."
    | .file _ => none
  | directory there => checkPath "Directory" value there fun
    | .file _ => some "is a file."
    | .directory => none

end Expected

/-- Values by what they are about. -/
abbrev Values := List (String × Datum)

namespace Sorted

/-- Options with one more; it takes the place of an earlier one of its kind. -/
def record (gs : List Given) (g : Given) : List Given :=
  if gs.any (·.rule == g.rule) then gs.map fun x => if x.rule == g.rule then g else x else gs ++ [g]

/-- The options that were given, in order; of an option that was given twice the last value counts. -/
def distinct (gs : List Given) : List Given := gs.foldl record []

/-- Whether a command was asked what it is for. -/
def asksHelp (s : Sorted) : Bool := s.given.any (·.rule == Shape.help)

/-- Checks options. -/
def checkGiven : List Given → Act (Except Misuse Values)
  | [] => return .ok []
  | g :: gs => do
    let checked ← match g.rule.expected, g.value with
      | some e, some v => e.check v
      | _, _ => pure (.ok (.bool true))
    match checked with
    | .error problem => return .error (.badValue (" / ".intercalate g.rule.spellings) problem)
    | .ok d => return (← checkGiven gs).map ((g.rule.field, d) :: ·)

/-- Checks arguments; gives the words that are left, too. -/
def checkArguments : List ArgumentRule → List String → Act (Except Misuse (Values × List String))
  | [], ws => return .ok ([], ws)
  | a :: _, [] => return .error (.argumentMissing a.shown)
  | a :: as, w :: ws => do
    match ← a.expected.check w with
    | .error problem => return .error (.badValue a.shown problem)
    | .ok d => return (← checkArguments as ws).map fun (vs, r) => ((a.field, d) :: vs, r)

/-- Checks all values of a command; gives the words that are left, too. -/
def values (s : Sorted) (shape : Shape) : Act (Except Misuse (Values × List String)) := do
  match ← checkGiven (distinct s.given) with
  | .error m => return .error m
  | .ok given => match ← checkArguments shape.arguments s.rest with
    | .error m => return .error m
    | .ok (arguments, rest) => return .ok (given ++ arguments, rest)

end Sorted

namespace Values

/-- Whether a flag was given. -/
def flag (vs : Values) (field : String) : Bool := (vs.lookup field).isSome

/-- The text of a value. -/
def text? (vs : Values) (field : String) : Option String :=
  match vs.lookup field with
  | some (.text s) => some s
  | _ => none

/-- The whole number of a value. -/
def int? (vs : Values) (field : String) : Option Int :=
  match vs.lookup field with
  | some (.int n) => some n
  | _ => none

/-- The number of a value. -/
def float? (vs : Values) (field : String) : Option Float :=
  match vs.lookup field with
  | some (.float x) => some x
  | _ => none

end Values

end Ratchet.CommandLine
