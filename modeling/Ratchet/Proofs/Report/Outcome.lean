import Mathlib.Tactic
import Ratchet.Report.Analysis

/-!
What the analysis says of an attempt.

The analysis has a table of the attempts, and the last cell of a row says in a word what became of the attempt. The record
of the attempt says it by its fields: it failed if it has an error, it was undone if it says so, and its changes were kept if
it did not fail and was not undone. The two part on one point. An error without words is an error in the record and none in
the table, which then says that the changes were kept, or undone.
-/

namespace Ratchet.Report

variable {g : Grouping} {r : Report} {p : Phase} {i j : Nat}

/-! ### Reading the table -/

/-- The rows of the table under a heading: a blank line follows the heading, and the head of the table has two lines. -/
def rowsUnder (heading : String) (lines : List String) : List String :=
  ((lines.dropWhile (· != heading)).drop 4).takeWhile (· != "")

/-- The last cell of a row. -/
def lastCell (row : String) : String :=
  String.ofList ((row.toList.reverse.drop 2).takeWhile (· != '|')).reverse.tail

/-- What the analysis of a run says of its attempts: the last cells of the table about phases. -/
def outcomeColumn (g : Grouping) (r : Report) : List String :=
  (rowsUnder "## Phases" (analysisLines g (some r))).map lastCell

lemma lastCell_eq {row out : String} {cells : List Char} (h : row.toList = cells ++ '|' :: ' ' :: out.toList ++ [' ', '|'])
    (hout : '|' ∉ out.toList) : lastCell row = out := by
  have hback : row.toList.reverse.drop 2 = (' ' :: out.toList).reverse ++ '|' :: cells.reverse := by
    rw [h]
    simp
  have hcell : ∀ c ∈ (' ' :: out.toList).reverse, (c != '|') = true := by
    intro c hc
    rcases List.mem_cons.1 (List.mem_reverse.1 hc) with rfl | hc
    · decide
    · rw [bne_iff_ne]
      rintro rfl
      exact hout hc
  rw [lastCell, hback, List.takeWhile_append_of_pos hcell, List.takeWhile_cons_of_neg (by decide), List.append_nil,
    List.reverse_reverse, List.tail_cons, String.ofList_toList]

/-- The last cell of a row of the table about phases. -/
lemma lastCell_tableRow (number category iteration before after : String) {out : String} (hout : '|' ∉ out.toList) :
    lastCell (tableRow [number, category, iteration, before, after, out]) = out := by
  have hcells : String.intercalate " | " [number, category, iteration, before, after, out] =
      number ++ " | " ++ category ++ " | " ++ iteration ++ " | " ++ before ++ " | " ++ after ++ " | " ++ out := rfl
  have hrow : ∃ before', (tableRow [number, category, iteration, before, after, out]).toList =
      before' ++ '|' :: ' ' :: out.toList ++ [' ', '|'] := by
    refine ⟨("| " ++ number ++ " | " ++ category ++ " | " ++ iteration ++ " | " ++ before ++ " | " ++ after ++ " ").toList, ?_⟩
    simp [tableRow, hcells]
  obtain ⟨_, hrow⟩ := hrow
  exact lastCell_eq hrow hout

lemma phaseRows_getElem? (ps : List Phase) :
    (phaseRows i ps)[j]? = ps[j]?.map fun p => tableRow [toString (i + j), p.category, toString p.iteration,
      toString p.before, toString p.after, outcome p] := by
  induction ps generalizing i j with
  | nil => rfl
  | cons p ps ih =>
    rw [phaseRows]
    rcases j with _ | j
    · rfl
    · rw [List.getElem?_cons_succ, List.getElem?_cons_succ, ih, Nat.add_right_comm]
      rfl

lemma tableRow_ne {cells : List String} {s : String} (h : s.toList.head? ≠ some '|') : tableRow cells ≠ s := by
  rintro rfl
  exact h (by simp [tableRow])

/-- The lines of an analysis up to those about the run. -/
def opening (g : Grouping) (r : Report) : List String :=
  ["# Diagnostic Analysis", ""] ++ summaryLines g (some r) ++
    ["## Categories", "", "| Category | Priority | Diagnostics | Files | Root cause |", "|---|---|---|---|---|"] ++
    (g.schedule []).map categoryRow ++ ["", "## Most Common Codes", "", "| Code | Count |", "|---|---|"] ++
    (g.commonCodes 10).map fun (code, n) => tableRow [code, toString n]

lemma analysisLines_run (g : Grouping) (r : Report) :
    analysisLines g (some r) = opening g r ++ (phaseLines r.phases ++ recommendationLines r.recommendations) := rfl

/-- What comes before the table about phases is not its heading. -/
lemma opening_ne (g : Grouping) (r : Report) : ∀ l ∈ opening g r, (l != "## Phases") = true := by
  have hsummary : ∀ l ∈ summaryLines g (some r), l.toList.head? = some '-' ∨ l = "" := by
    simp [summaryLines]
  have hrow : ∀ cells, (tableRow cells != "## Phases") = true := fun cells => bne_iff_ne.2 (tableRow_ne (by decide))
  simp only [opening, List.forall_mem_append, List.forall_mem_map]
  refine ⟨⟨⟨⟨⟨by decide, fun l hl => bne_iff_ne.2 ?_⟩, by decide⟩, fun s _ => hrow _⟩, by decide⟩, fun x _ => hrow _⟩
  rintro rfl
  rcases hsummary _ hl with h | h
  · exact absurd h (by decide)
  · exact absurd h (by decide)

lemma rowsUnder_analysis (h : r.phases ≠ []) : rowsUnder "## Phases" (analysisLines g (some r)) = phaseRows 1 r.phases := by
  have hphases : phaseLines r.phases = ["", "## Phases", "", "| # | Category | Iter | Before | After | Outcome |",
      "|---|---|---|---|---|---|"] ++ phaseRows 1 r.phases := by
    rw [phaseLines, if_neg (by simpa using h)]
  have hrows : ∀ l ∈ phaseRows 1 r.phases, (l != "") = true := by
    intro l hl
    obtain ⟨j, hj⟩ := List.mem_iff_getElem?.1 hl
    rw [phaseRows_getElem?] at hj
    obtain ⟨p, -, rfl⟩ := Option.map_eq_some_iff.1 hj
    exact bne_iff_ne.2 (tableRow_ne (by decide))
  have hrest : (recommendationLines r.recommendations).takeWhile (· != "") = [] := by
    rw [recommendationLines]
    split
    · rfl
    · rfl
  rw [rowsUnder, analysisLines_run, List.dropWhile_append_of_pos (opening_ne g r), hphases]
  simp only [List.cons_append, List.nil_append]
  rw [List.dropWhile_cons_of_pos (by decide), List.dropWhile_cons_of_neg (by decide)]
  simp only [List.drop_succ_cons, List.drop_zero]
  rw [List.takeWhile_append_of_pos hrows, hrest, List.append_nil]

/-! ### The column and the record -/

/-- A cell that says of a phase what its record says. -/
structure Agrees (cell : String) (p : Phase) : Prop where
  committed : "committed".toList <+: cell.toList ↔ p.committed = true
  failed : (cell = "timeout" ∨ cell = "failed") ↔ p.failed = true
  reverted : cell = "reverted" ↔ p.failed = false ∧ p.reverted = true

/-- The words that a record comes to, unless it is one of a plan. -/
inductive Told (p : Phase) : String → Prop
  | timeout (h : p.error.getD "" ≠ "") : Told p "timeout"
  | failed (h : p.error.getD "" ≠ "") : Told p "failed"
  | reverted (h : p.error.getD "" = "") (hr : p.reverted = true) : Told p "reverted"
  | raised (h : p.error.getD "" = "") (hr : p.reverted = false) : Told p "committed (transform raised)"
  | committed (h : p.error.getD "" = "") (hr : p.reverted = false) : Told p "committed"

lemma told_outcome (hdry : p.dryRun = false) : Told p (outcome p) := by
  rw [outcome, hdry]
  by_cases herror : p.error.getD "" = ""
  · rw [if_neg (by simpa using herror)]
    cases hr : p.reverted with
    | true => exact .reverted herror hr
    | false =>
      simp only [Bool.false_eq_true, if_false]
      split
      · exact .raised herror hr
      · exact .committed herror hr
  · rw [if_pos (by simpa using herror)]
    split
    · exact .timeout herror
    · exact .failed herror

lemma Told.bar_notMem {cell : String} (h : Told p cell) : '|' ∉ cell.toList := by
  cases h <;> decide

/-- A record with an error has failed, and one whose error has words says so. -/
lemma Told.agrees_iff {cell : String} (h : Told p cell) (hdry : p.dryRun = false) : Agrees cell p ↔ p.error ≠ some "" := by
  have hcommitted : p.committed = (!p.failed && !p.reverted) := by rw [Phase.committed, hdry]; simp
  rcases herror : p.error with _ | e
  · have hfailed : p.failed = false := by rw [Phase.failed, herror]; rfl
    refine iff_of_true ?_ nofun
    cases h with
    | timeout h | failed h => exact absurd (by rw [herror]; rfl) h
    | reverted _ hr | raised _ hr | committed _ hr =>
      constructor <;> simp [hcommitted, hfailed, hr]
  · have hfailed : p.failed = true := by rw [Phase.failed, herror]; rfl
    by_cases he : e = ""
    · subst he
      refine iff_of_false (fun hagrees => ?_) (not_not.2 rfl)
      -- The record has failed, and the table has gone past that.
      have hcell := hagrees.failed.2 hfailed
      cases h with
      | timeout h | failed h => exact absurd (by rw [herror]; rfl) h
      | reverted | raised | committed => exact absurd hcell (by decide)
    · refine iff_of_true ?_ (fun h => he (Option.some.inj h))
      cases h with
      | timeout | failed => constructor <;> simp [hcommitted, hfailed]
      | reverted h | raised h | committed h => exact absurd (by rwa [herror] at h) he

/-- **What the analysis says of an attempt agrees with its record exactly when its error is not one without words.** -/
theorem outcome_agrees_iff (g : Grouping) (r : Report) (i : Nat) (p : Phase) (hp : r.phases[i]? = some p)
    (hdry : p.dryRun = false) :
    ∃ cell, (outcomeColumn g r)[i]? = some cell ∧ (Agrees cell p ↔ p.error ≠ some "") := by
  have hne : r.phases ≠ [] := by
    rintro h
    rw [h] at hp
    exact absurd hp nofun
  refine ⟨outcome p, ?_, (told_outcome hdry).agrees_iff hdry⟩
  rw [outcomeColumn, rowsUnder_analysis hne, List.getElem?_map, phaseRows_getElem?, hp]
  exact congrArg some (lastCell_tableRow _ _ _ _ _ (told_outcome hdry).bar_notMem)

/-- A report of one attempt that ended with this error. -/
def failing (error : String) : Report where
  timestamp := .ofUniversal 0
  phases := [{ category := "import-issues", iteration := 1, before := 3, after := 3, error := some error }]

/-- An attempt whose error has words is told as failed. -/
theorem outcome_agrees_iff_worded : ∃ p cell, (failing "boom").phases[0]? = some p ∧ p.dryRun = false ∧
    (outcomeColumn ⟨[], []⟩ (failing "boom"))[0]? = some cell ∧ Agrees cell p := by
  obtain ⟨cell, hcell, hiff⟩ := outcome_agrees_iff ⟨[], []⟩ (failing "boom") 0 _ rfl rfl
  exact ⟨_, cell, rfl, rfl, hcell, hiff.2 (by decide)⟩

/-- An attempt that failed with an error without words is told as committed. -/
theorem committed_without_words : outcomeColumn ⟨[], []⟩ (failing "") = ["committed"] ∧
    ∃ p, (failing "").phases = [p] ∧ p.dryRun = false ∧ p.failed = true ∧ p.committed = false := by
  refine ⟨by decide +kernel, _, rfl, rfl, rfl, rfl⟩

end Ratchet.Report
