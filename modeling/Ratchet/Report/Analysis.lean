import Ratchet.Report.Recommendation

/-!
The analysis of a measurement in Markdown: the categories with their priorities, the most common
codes, and after a run its phases and recommendations.
-/

namespace Ratchet.Report

/-- What a phase came to, in a word. -/
def outcome (p : Phase) : String :=
  if p.error.getD "" != "" then (if p.timeout then "timeout" else "failed")
  else if p.reverted then "reverted"
  else if p.dryRun then "planned " ++ toString p.applied
  else if p.transformError.getD "" != "" then "committed (transform raised)"
  else "committed"

/-- A row of a table. -/
def tableRow (cells : List String) : String := "| " ++ String.intercalate " | " cells ++ " |"

/-- A priority with two places. -/
def priorityText (hundredths : Nat) : String := String.ofList (Number.pointed 2 hundredths)

/-- The lines about the run, or about the measurement when there is no run. -/
def summaryLines (g : Grouping) : Option Report → List String
  | some r => [
    "- Project: \x60" ++ r.projectPath ++ "\x60",
    "- Status: **" ++ r.status ++ "**" ++ (if r.dryRun then " (dry run)" else ""),
    "- Initial diagnostics: " ++ toString r.initial,
    "- Final diagnostics: " ++ toString r.final,
    "- Improvement: " ++ toString r.improvement ++ " (" ++ Number.percent 1 r.successRate ++ ")",
    ""]
  | none => ["- Total diagnostics: " ++ toString g.total, ""]

/-- The row of a scheduled category. -/
def categoryRow (s : Scheduled) : String :=
  tableRow [s.category.name, priorityText s.priority, toString s.diagnostics, toString s.files,
    s.category.rootCause]

/-- The rows of phases, numbered from `i`. -/
def phaseRows (i : Nat) : List Phase → List String
  | [] => []
  | p :: ps =>
    tableRow [toString i, p.category, toString p.iteration, toString p.before, toString p.after, outcome p] ::
      phaseRows (i + 1) ps

/-- The part about phases. -/
def phaseLines (phases : List Phase) : List String :=
  if phases.isEmpty then []
  else ["", "## Phases", "", "| # | Category | Iter | Before | After | Outcome |", "|---|---|---|---|---|---|"] ++
    phaseRows 1 phases

/-- The part about recommendations. -/
def recommendationLines (rs : List String) : List String :=
  if rs.isEmpty then [] else ["", "## Recommendations", ""] ++ rs.map ("- " ++ ·)

/-- The lines of the analysis. -/
def analysisLines (g : Grouping) (report : Option Report) : List String :=
  ["# Diagnostic Analysis", ""] ++ summaryLines g report ++
    ["## Categories", "", "| Category | Priority | Diagnostics | Files | Root cause |", "|---|---|---|---|---|"] ++
    (g.schedule []).map categoryRow ++
    ["", "## Most Common Codes", "", "| Code | Count |", "|---|---|"] ++
    (g.commonCodes 10).map (fun (code, n) => tableRow [code, toString n]) ++
    (match report with
      | some r => phaseLines r.phases ++ recommendationLines r.recommendations
      | none => [])

/-- The analysis. -/
def analysis (g : Grouping) (report : Option Report) : String :=
  String.intercalate "\n" (analysisLines g report) ++ "\n"

end Ratchet.Report
