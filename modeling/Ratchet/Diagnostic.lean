import Ratchet.Category.Classify
import Ratchet.Schema

/-!
Diagnostics.

A diagnostic is one positional finding of the toolchain. Records of one measurement are kept in the
order in which the toolchain printed them and are never merged.
-/

namespace Ratchet

/-- How severe a diagnostic is. -/
inductive Severity
  | low
  | medium
  | high
  | critical
  deriving DecidableEq, Repr

namespace Severity

/-- The name of a severity. -/
def name : Severity → String
  | low => "low"
  | medium => "medium"
  | high => "high"
  | critical => "critical"

/-- The severity with a name. -/
def ofName? (s : String) : Option Severity := [low, medium, high, critical].find? (·.name == s)

/-- The severity of a diagnostic, from the word that the toolchain gives it: an error is critical
when it is a syntax error. -/
def ofKeyword (keyword code message : String) : Severity :=
  let word := String.ofList (Text.lowered (Text.trimList keyword.toList))
  if word == "error" then
    (if Category.classify code message == .syntaxErrors then critical else high)
  else if word == "warning" then medium
  else low

end Severity

/-- One positional finding of the toolchain. -/
structure Diagnostic where
  file : String
  line : Nat
  column : Nat
  code : String
  message : String
  severity : Severity
  deriving DecidableEq, Repr

namespace Diagnostic

/-- The location of a diagnostic: `file(line,column)`. -/
def location (d : Diagnostic) : String :=
  d.file ++ "(" ++ toString d.line ++ "," ++ toString d.column ++ ")"

/-- The category of a diagnostic. -/
def category (d : Diagnostic) : Category := Category.classify d.code d.message

/-- Reads a severity. -/
def readSeverity : Schema.Reader Severity
  | .text s => match Severity.ofName? s with
    | some v => .ok v
    | none => .flaw .literalError
  | _ => .flaw .literalError

/-- Reads a diagnostic. -/
def ofEntries (es : List (Datum × Datum)) : Schema.Checked Diagnostic :=
  (fun file line column code message severity =>
    (⟨file, line.toNat, column.toNat, code, message, severity⟩ : Diagnostic)) <$>
    Schema.required es "file" Schema.text <*>
    Schema.required es "line" (Schema.intFrom 1) <*>
    Schema.required es "column" (Schema.intFrom 1) <*>
    Schema.required es "code" Schema.text <*>
    Schema.field es "message" "" Schema.text <*>
    Schema.field es "severity" .high readSeverity

/-- The files of diagnostics, each once, in the order in which they come first. -/
def files (ds : List Diagnostic) : List String :=
  (ds.foldl (fun seen d => if seen.contains d.file then seen else d.file :: seen) []).reverse

end Diagnostic

end Ratchet
