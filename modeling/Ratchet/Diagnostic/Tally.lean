import Ratchet.Diagnostic

/-!
Counting.

A tally counts how often each key comes and keeps the keys in the order in which they came first.
Sorted by count it lists the most frequent first and keeps that order among equals.
-/

namespace Ratchet

/-- Counts by key, in the order in which the keys came first. -/
abbrev Tally := List (String × Nat)

namespace Tally

/-- One more of a key. -/
def bump (k : String) : Tally → Tally
  | [] => [(k, 1)]
  | (j, n) :: r => if j == k then (j, n + 1) :: r else (j, n) :: bump k r

/-- How often each key comes. -/
def ofKeys (ks : List String) : Tally := ks.foldl (fun t k => bump k t) []

/-- The most frequent keys first. -/
def byCount (t : Tally) : Tally := t.mergeSort fun a b => b.2 ≤ a.2

end Tally

/-- How many diagnostics each file has, the most affected file first. -/
def Diagnostic.perFile (ds : List Diagnostic) : Tally := (Tally.ofKeys (ds.map (·.file))).byCount

end Ratchet
