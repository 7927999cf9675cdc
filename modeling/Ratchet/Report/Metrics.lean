import Ratchet.Report

/-!
The figures of a report.

The success rate is the share of the initial diagnostics that are gone, to four places. A report's
status compares the final count with the initial one. A phase violates the guard when its changes
were kept although the count grew by more than the threshold.
-/

namespace Ratchet.Report

/-- The share of the initial diagnostics that are gone; nothing if it is too large for a number. -/
def successRate? (initial final : Int) : Option Float :=
  if initial ≤ 0 then some 0
  else (Number.quotient? (initial - final) initial).map (Number.roundTo 4)

/-- The status of a run. -/
def statusOf (initial final : Int) (failed : Bool) : String :=
  if failed then "error"
  else if initial == 0 then "clean"
  else if final == 0 then "success"
  else if final < initial then "improved"
  else if final == initial then "unchanged"
  else "regressed"

/-- The phases whose changes were kept although the count grew by more than the threshold. -/
def violations (phases : List Phase) (threshold : Int) : List Phase :=
  phases.filter fun p => p.committed && threshold < p.after - p.before

end Ratchet.Report
