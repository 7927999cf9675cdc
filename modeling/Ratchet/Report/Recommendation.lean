import Ratchet.Report.Metrics

/-!
Recommendations.

A report recommends a review for each category that is left, a note for each attempt that did not go
well, a focus when one category holds more than half of what is left, a look at files with more
than ten diagnostics, and a remark when the run took more than five minutes, in this order.
-/

namespace Ratchet.Report

/-- The remark about a category that is left. -/
def reviewLine (name : String) (count : Int) : String :=
  toString count ++ " " ++ name ++ " diagnostics remain \u2014 manual review required"

/-- The remarks about the categories that are left, in the order of the catalogue. -/
def reviewLines (remaining : List (String × Int)) : List String :=
  Category.catalogue.filterMap fun c =>
    let count := (remaining.lookup c.name).getD 0
    if count == 0 then none else some (reviewLine c.name count)

/-- The start of a remark about an attempt. -/
def attemptLabel (p : Phase) : String := p.category ++ " (iteration " ++ toString p.iteration ++ ")"

/-- A count with its sign. -/
def withSign (n : Int) : String := if n < 0 then toString n else "+" ++ toString n

/-- The remark about an attempt that did not go well. -/
def attemptLine? (p : Phase) : Option String :=
  if p.reverted then
    some (attemptLabel p ++ " was reverted after +" ++ toString p.increase ++
      " diagnostics; review its transform before re-enabling it")
  else if p.timeout then some (attemptLabel p ++ " timed out; raise the timeout or split the work")
  else match p.error with
    | some e => some (attemptLabel p ++ " failed: " ++ e)
    | none => match p.transformError with
      | some e => if e.isEmpty then none else some (attemptLabel p ++ " transform raised: " ++ e)
      | none => none

/-- The first of the largest entries. -/
def largest? : List (String × Int) → Option (String × Int)
  | [] => none
  | e :: r => some (r.foldl (fun best x => if best.2 < x.2 then x else best) e)

/-- The nearest whole number of percent of a share, a half going to the even neighbour. -/
def wholePercent (count total : Int) : Int :=
  match Number.quotient? (100 * count) total with
  | some x =>
    match Number.parts x with
    | .finite negative m q =>
      let n : Int := Number.scaledDecimal 0 m q
      if negative then -n else n
    | _ => 0
  | none => 0

/-- Whether a part is more than half of a whole. -/
def isDominant (count total : Int) : Bool :=
  match Number.quotient? count total with
  | some x => 0.5 < x
  | none => false

/-- The remark about a category that holds more than half of what is left. -/
def focusLine? (remaining : List (String × Int)) : Option String :=
  let total := (remaining.map (·.2)).foldr (· + ·) 0
  if total == 0 then none
  else match largest? remaining with
    | some (name, count) =>
      if isDominant count total then
        some (name ++ " accounts for " ++ toString (wholePercent count total) ++
          "% of remaining diagnostics; focus remediation there")
      else none
    | none => none

/-- The number of diagnostics above which a file is worth a look. -/
def hotspotLimit : Nat := 10

/-- The remarks about files with many diagnostics, the most affected file first. -/
def hotspotLines (ds : List Diagnostic) : List String :=
  ((Diagnostic.perFile ds).takeWhile (hotspotLimit < ·.2)).map fun (file, n) =>
    file ++ " has " ++ toString n ++ " diagnostics; consider refactoring it"

/-- The remark about a run of more than five minutes. -/
def longRunLine? (duration : Float) : Option String :=
  if 300 < duration then
    some ("Run took " ++ Number.fixed 0 duration ++
      "s; consider a faster check command or fewer iterations")
  else none

/-- What to do next. -/
def recommend (remaining : List (String × Int)) (phases : List Phase) (ds : List Diagnostic)
    (duration : Float) : List String :=
  reviewLines remaining ++ phases.filterMap attemptLine? ++ (focusLine? remaining).toList ++
    hotspotLines ds ++ (longRunLine? duration).toList

end Ratchet.Report
