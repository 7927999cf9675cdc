import Ratchet.Json.Reader
import Ratchet.Json.Writer
import Ratchet.Report.Analysis
import Ratchet.World

/-!
Handing out a report: writing it and its analysis to files, reading it back, and posting it to a
server. A file that cannot be written and a server that does not take the report are no faults of the
run; the answer says whether it worked.
-/

namespace Ratchet.Report

/-- Writes a text file and all directories that lead to it; says whether it worked. -/
def writeFile (path text : String) : Act Bool := do
  let path := Path.absolute (← get).here path
  let written ← Act.outcome do
    Act.ensureDirectories (Path.parent path)
    Act.writeText path text
  match written with
  | .ok () => return true
  | .error f => if f.kind.isSystem then return false else throw f

/-- Writes a report. -/
def write (r : Report) (path : String) : Act Bool := writeFile path (Json.write r.toDatum)

/-- Writes the analysis of a measurement. -/
def writeAnalysis (g : Grouping) (report : Option Report) (path : String) : Act Bool :=
  writeFile path (analysis g report)

/-- The report that a text holds, if it holds one. -/
def ofText (s : String) : Except Fault (Option Report) :=
  match Json.read s with
  | .error .tooDeep => .error .tooDeep
  | .error _ => .ok none
  | .ok (.map es) => match ofEntries es with
    | .ok r => .ok (some r)
    | .flawed _ => .ok none
  | .ok _ => .error .badType

/-- Reads a report that was written before. -/
def load (path : String) : Act (Option Report) := do
  if ← Act.isFile path then
    match ← Act.outcome (Act.readText path) with
    | .ok s => Act.ofResult (ofText s)
    | .error f => if f.kind.isSystem || f.kind.isValue then return none else throw f
  else return none

/-- Whether a number can be sent to a server. -/
def isFinite (x : Float) : Bool :=
  match Number.parts x with
  | .finite .. => true
  | _ => false

/-- Whether every number of a report can be sent to a server. -/
def sendable (r : Report) : Bool :=
  isFinite r.duration && isFinite r.successRate && r.schedule.all fun s => isFinite s.priority

/-- Posts a report to a server; says whether the server took it. -/
def publish (r : Report) (url : String) : Act Bool := do
  if r.sendable then
    match ← Act.request "POST" url r.toDatum with
    | .status n => return 200 ≤ n && n < 300
    | .unreachable => return false
  else throw (.value "Out of range float values are not JSON compliant")

end Ratchet.Report
