import Ratchet.Diagnostic.Tally

/-!
Diagnostics in groups.

Diagnostics are grouped by category, in the order of the catalogue and without empty groups, and by
code, in the order in which the codes came first. Inside a group the input order is kept.
-/

namespace Ratchet

/-- Diagnostics grouped by category and by code. -/
structure Grouping where
  byCategory : List (Category × List Diagnostic)
  byCode : List (String × List Diagnostic)
  deriving Repr

namespace Grouping

/-- The non-empty groups of values by category, in the order of the catalogue. -/
def groupTagged (tagged : List (Category × Diagnostic)) : List (Category × List Diagnostic) :=
  (Category.catalogue.map fun c => (c, (tagged.filter (·.1 == c)).map (·.2))).filter fun g => !g.2.isEmpty

/-- One more diagnostic in the group of its code. -/
def addByCode (d : Diagnostic) : List (String × List Diagnostic) → List (String × List Diagnostic)
  | [] => [(d.code, [d])]
  | (k, g) :: r => if k == d.code then (k, g ++ [d]) :: r else (k, g) :: addByCode d r

/-- Groups diagnostics. -/
def ofList (ds : List Diagnostic) : Grouping where
  byCategory := groupTagged (ds.map fun d => (d.category, d))
  byCode := ds.foldl (fun g d => addByCode d g) []

/-- The number of diagnostics. -/
def total (g : Grouping) : Nat := (g.byCategory.map (·.2.length)).foldr (· + ·) 0

/-- The size of each group by category. -/
def counts (g : Grouping) : List (Category × Nat) := g.byCategory.map fun (c, ds) => (c, ds.length)

/-- The group of a category. -/
def get (g : Grouping) (c : Category) : List Diagnostic := (g.byCategory.lookup c).getD []

/-- The codes with their counts, the most frequent first; at most `limit` of them, or all but the
last `-limit` for a negative limit. -/
def commonCodes (g : Grouping) (limit : Int) : Tally :=
  let t : Tally := (g.byCode.map fun (c, ds) => (c, ds.length)).mergeSort fun a b => b.2 ≤ a.2
  if 0 ≤ limit then t.take limit.toNat else t.take (t.length - limit.natAbs)

end Grouping

/-- A category that is to be remedied, with its priority in hundredths. -/
structure Scheduled where
  category : Category
  priority : Nat
  diagnostics : Nat
  files : Nat
  deriving DecidableEq, Repr

namespace Scheduled

/-- The priority of a category in hundredths: its base, a tenth for each file up to two, and a
hundredth for each diagnostic up to one. -/
def priorityOf (c : Category) (diagnostics files : Nat) : Nat :=
  c.basePriority * 100 + min (files * 10) 200 + min diagnostics 100

/-- A category with its diagnostics, ready to be scheduled. -/
def ofGroup (c : Category) (ds : List Diagnostic) : Scheduled :=
  let files := (Diagnostic.files ds).length
  ⟨c, priorityOf c ds.length files, ds.length, files⟩

/-- Whether `a` may stand before `b`: it has the higher priority, or the same one and the earlier
place in the catalogue. -/
def before (a b : Scheduled) : Bool :=
  b.priority < a.priority || (a.priority == b.priority && a.category.rank ≤ b.category.rank)

end Scheduled

/-- The order in which the categories of a grouping are remedied, without the disabled ones. -/
def Grouping.schedule (g : Grouping) (disabled : List String) : List Scheduled :=
  ((g.byCategory.filter fun (c, _) => !disabled.contains c.name).map fun (c, ds) =>
    Scheduled.ofGroup c ds).mergeSort Scheduled.before

end Ratchet
