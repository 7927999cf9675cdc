import Ratchet.Text.Blank
import Ratchet.Text.Letter

/-!
Root-cause categories.

The catalogue has seven categories in a fixed order, each with a base priority; syntax errors come
before everything else and the rest category takes what no other one claims.
-/

namespace Ratchet

/-- A root-cause category of diagnostics. -/
inductive Category
  | syntaxErrors
  | importIssues
  | typeMismatches
  | missingDeclarations
  | unusedCode
  | configurationIssues
  | other
  deriving DecidableEq, Repr

namespace Category

/-- The categories in the order of the catalogue. -/
def catalogue : List Category :=
  [syntaxErrors, importIssues, typeMismatches, missingDeclarations, unusedCode, configurationIssues, other]

/-- The place of a category in the catalogue. -/
def rank : Category → Nat
  | syntaxErrors => 0
  | importIssues => 1
  | typeMismatches => 2
  | missingDeclarations => 3
  | unusedCode => 4
  | configurationIssues => 5
  | other => 6

/-- The name of a category. -/
def name : Category → String
  | syntaxErrors => "syntax-errors"
  | importIssues => "import-issues"
  | typeMismatches => "type-mismatches"
  | missingDeclarations => "missing-declarations"
  | unusedCode => "unused-code"
  | configurationIssues => "configuration-issues"
  | other => "other"

/-- The category with a name; the rest category for every other name. -/
def ofName (s : String) : Category := (catalogue.find? (·.name == s)).getD other

/-- The priority of a category without regard to its size. -/
def basePriority : Category → Nat
  | syntaxErrors => 10
  | importIssues => 9
  | typeMismatches => 7
  | missingDeclarations => 8
  | unusedCode => 5
  | configurationIssues => 6
  | other => 1

/-- The root cause that a category stands for. -/
def rootCause : Category → String
  | syntaxErrors => "SYNTAX_ERROR"
  | importIssues => "MISSING_IMPORT"
  | typeMismatches => "TYPE_MISMATCH"
  | missingDeclarations => "MISSING_DECLARATION"
  | unusedCode => "UNUSED_CODE"
  | configurationIssues => "CONFIGURATION"
  | other => "UNKNOWN"

/-- The name of the strategy that remedies a category. -/
def strategyName : Category → String
  | syntaxErrors => "syntax"
  | importIssues => "imports"
  | typeMismatches => "types"
  | missingDeclarations => "declarations"
  | unusedCode => "unused"
  | configurationIssues => "configuration"
  | other => "other"

/-- Every category is in the catalogue. -/
theorem mem_catalogue (c : Category) : c ∈ catalogue := by cases c <;> decide

theorem name_injective {a b : Category} (h : a.name = b.name) : a = b := by
  cases a <;> cases b <;> simp_all [name]

@[simp] theorem ofName_name (c : Category) : ofName c.name = c := by cases c <;> rfl

end Category

end Ratchet
