import Ratchet.Category
import Ratchet.Category.Phrase

/-!
Classification of diagnostics.

A diagnostic is classified by its code, if the code belongs to one category; by phrases in its
message, if the code covers several categories or none is known for it; and as the rest otherwise.
-/

namespace Ratchet.Category

/-- The codes that belong to one category. -/
def codes : Category → List String
  | .syntaxErrors => [
    "TS1002", "TS1003", "TS1005", "TS1109", "TS1128", "TS1136", "TS1161", "TS1381", "TS1382",
      "TS2451", "TS17002", "TS17008", "CS1002", "CS1026", "CS1513", "CS1514"]
  | .importIssues => [
    "TS1192", "TS2300", "TS2304", "TS2305", "TS2307", "TS2614", "TS2724", "TS6192", "CS0234",
      "CS0246"]
  | .typeMismatches => [
    "TS2322", "TS2339", "TS2345", "TS2353", "TS2741", "TS2769", "TS7019", "TS7031", "CS0029",
      "CS1503"]
  | .missingDeclarations => [
    "TS2552", "TS2554", "TS7006", "TS7008", "TS18004", "CS0103"]
  | .unusedCode => [
    "TS6196", "TS6198", "TS7027", "CS0168", "CS0219"]
  | .configurationIssues => [
    "TS2686", "TS2792", "TS5023", "TS5024", "TS6053", "TS17004", "TS18046"]
  | .other => []

/-- The category that a code belongs to. -/
def ofCode? (code : String) : Option Category := catalogue.find? fun c => c.codes.contains code

/-- A code that covers imports and other unused code: the words that tell an import, at the start of
a word. -/
def importPhrase? (code : String) : Option Phrase :=
  if code == "TS6133" then some [.letters "import"]
  else if code == "CS8019" then some [.letters "using directive"]
  else none

/-- The phrases that tell a category, in the order in which they are tried. -/
def phrases : List (Phrase × Category) := [
  ([.letters "'", .stretch, .letters "' expected"], syntaxErrors),
  ([.letters "unexpected token"], syntaxErrors),
  ([.letters "unterminated"], syntaxErrors),
  ([.letters "cannot find module"], importIssues),
  ([.letters "has no exported member"], importIssues),
  ([.letters "duplicate identifier"], importIssues),
  ([.letters "all imports in import declaration"], importIssues),
  ([.letters "is not assignable to"], typeMismatches),
  ([.letters "does not exist on type"], typeMismatches),
  ([.letters "cannot find name"], missingDeclarations),
  ([.letters "implicitly has a", .maybe "n", .letters " ", .maybe "'", .letters "any", .maybe "'",
    .letters " type"], missingDeclarations),
  ([.letters "expected ", .digits, .letters " argument", .maybe "s"], missingDeclarations),
  ([.letters "is declared but ", .maybe "its value is ", .letters "never ", .oneOf ["read", "used"]],
    unusedCode),
  ([.letters "unreachable code"], unusedCode),
  ([.oneOf ["tsconfig", "compiler option", "--jsx"]], configurationIssues)]

/-- The category of a message whose code tells nothing. -/
def ofMessage (message : String) : Category :=
  ((phrases.find? fun (p, _) => p.occursIn message.toList).map (·.2)).getD other

/-- A code as the tables know it: in capitals and without blanks around it. -/
def codeKey (code : String) : String := String.ofList (Text.capitalized (Text.trimList code.toList))

/-- The category of a diagnostic with a code and a message. -/
def classify (code message : String) : Category :=
  let key := codeKey code
  match ofCode? key with
  | some c => c
  | none =>
    match importPhrase? key with
    | some p => if p.occursAsWord false message.toList then importIssues else unusedCode
    | none => ofMessage message

end Ratchet.Category
