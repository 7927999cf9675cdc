import Ratchet.CommandLine
import Ratchet.World.Document

/-!
The program.

It rehearses a command line in a world that one line of the standard input describes: what the command
prints goes to the output, what it complains of to the error output, and the files as the command leaves
them follow the complaints.
-/

open Ratchet

/-- Rehearses a command line. -/
def main (words : List String) : IO UInt32 := do
  match World.ofText? (← (← IO.getStdin).getLine) with
  | none =>
    (← IO.getStderr).putStrLn "Error: The standard input describes no world."
    return 2
  | some w =>
    let (o, w) := CommandLine.outcomeOf {} words w
    (← IO.getStdout).putStr o.output
    for line in o.complaints do (← IO.getStderr).putStrLn line
    (← IO.getStderr).putStrLn (Json.write w.filesDatum)
    return UInt32.ofNat o.code
