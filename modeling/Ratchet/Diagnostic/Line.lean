import Ratchet.Diagnostic
import Ratchet.Fault
import Ratchet.Path
import Ratchet.Text.Lines

/-!
Lines of toolchain output.

A line that reports a diagnostic has the form `file(line,column): severity CODE: message`. The file
is as short as it can be, so the first complete header after the line's first character counts.
Every other line is skipped; a position of more than 4300 digits is refused.
-/

namespace Ratchet.Diagnostic

/-- The part of a line that follows the file. -/
structure Header where
  line : List Char
  column : List Char
  keyword : List Char
  code : List Char
  message : List Char
  deriving DecidableEq, Repr

/-- The words that can tell a severity. -/
def keywords : List String := ["error", "warning", "info", "message", "suggestion"]

/-- One or more characters that `p` accepts, and the rest. -/
def some? (p : Char → Bool) (s : List Char) : Option (List Char × List Char) :=
  let t := s.takeWhile p
  if t.isEmpty then none else some (t, s.dropWhile p)

/-- One character and the rest. -/
def mark? (c : Char) : List Char → Option (List Char)
  | x :: r => if x == c then some r else none
  | [] => none

/-- A word that tells a severity, with the rest that starts with a blank. -/
def keyword? (s : List Char) : Option (List Char × List Char) :=
  keywords.findSome? fun k =>
    match Text.dropLetters? k.toList s with
    | some r => if (some? Text.isBlank r).isSome then some (s.take k.length, r) else none
    | none => none

/-- The header that takes up a text. The message does not go past a line feed. -/
def header? (s : List Char) : Option Header := do
  let s ← mark? '(' s
  let (line, s) ← some? Text.isDigit s
  let s ← mark? ',' s
  let (column, s) ← some? Text.isDigit s
  let s ← mark? ')' s
  let s ← mark? ':' s
  let (_, s) ← some? Text.isBlank s
  let (keyword, s) ← keyword? s
  let (_, s) ← some? Text.isBlank s
  let (letters, s) ← some? Text.isLetter s
  let (digits, s) ← some? Text.isDigit s
  let s ← mark? ':' s
  let message := s.dropWhile Text.isBlank
  if message.contains '\n' then none else some ⟨line, column, keyword, letters ++ digits, message⟩

/-- The shortest file, of one character at least and without line feeds, that a header follows. -/
def fileAndHeader? : List Char → Option (List Char × Header)
  | [] => none
  | c :: s =>
    if c == '\n' then none
    else match header? s with
      | some h => some ([c], h)
      | none => (fileAndHeader? s).map fun (f, h) => (c :: f, h)

/-- The file and the header of a line. A blank before the line's first header is its file, when
nothing else is. -/
def split? (s : List Char) : Option (List Char × Header) :=
  let blanks := s.takeWhile Text.isBlank
  let rest := s.dropWhile Text.isBlank
  match fileAndHeader? rest with
  | some r => some r
  | none =>
    match blanks.getLast? with
    | some b => if b == '\n' then none else (header? rest).map fun h => ([b], h)
    | none => none

/-- The number of a position. -/
def position (ds : List Char) : Except Fault Nat :=
  if Number.maxDigits < ds.length then .error (.value (Number.longText ds.length))
  else .ok (Text.digitsValue ds)

/-- The endings of project files. -/
def projectEndings : List String := [".csproj", ".vbproj", ".fsproj", ".sln"]

/-- Whether a text is a project file in brackets, after one or more blanks. -/
def isProjectMark (s : List Char) : Bool :=
  match some? Text.isBlank s with
  | some (_, '[' :: r) =>
    match r.reverse with
    | ']' :: back =>
      !back.contains ']' && projectEndings.any fun e =>
        e.length < back.length &&
          Text.dropLetters? e.toList (back.reverse.drop (back.length - e.length)) == some []
    | _ => false
  | _ => false

/-- A message without the project file that ends it. -/
def dropProject : List Char → List Char
  | [] => []
  | c :: s => if isProjectMark (c :: s) then [] else c :: dropProject s

/-- The diagnostic of a file and a header; nothing if a position is zero or no file is left. -/
def ofHeader? (here workspace : String) (file : List Char) (h : Header) : Except Fault (Option Diagnostic) := do
  let line ← position h.line
  let column ← position h.column
  let file := Path.clean here workspace (String.ofList file)
  if line == 0 || column == 0 || file.isEmpty then return none
  else
    let code := String.ofList (Text.capitalized h.code)
    let message := String.ofList (dropProject (Text.trimList h.message))
    return some ⟨file, line, column, code, message, .ofKeyword (String.ofList h.keyword) code message⟩

/-- The diagnostic that a line reports, if it does. -/
def ofLine? (here workspace : String) (line : List Char) : Except Fault (Option Diagnostic) :=
  match split? (Text.dropEndWhile (fun c => c == '\r' || c == '\n') line) with
  | none => .ok none
  | some (file, h) => ofHeader? here workspace file h

/-- The diagnostics that lines report, in their order. -/
def ofLines (here workspace : String) : List (List Char) → Except Fault (List Diagnostic)
  | [] => .ok []
  | l :: ls => do
    let d ← ofLine? here workspace l
    let ds ← ofLines here workspace ls
    return d.toList ++ ds

/-- The diagnostics that a toolchain's output reports, in its order. -/
def ofOutput (here workspace output : String) : Except Fault (List Diagnostic) :=
  ofLines here workspace (Text.lineBodies output.toList)

end Ratchet.Diagnostic
