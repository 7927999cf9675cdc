import Ratchet.Proofs.Diagnostic.Line
import Ratchet.Proofs.Lines

/-!
Texts that are put in a row.

Where a line break joins two texts, the lines at the seam may come out differently from those of the two texts: a
carriage return at the end of the first text and a line feed are one break, and a break after a finished line, or after
nothing, leaves a line without a character. Such lines report nothing, and the lines that have a character are the same
(`filled_append_break`). So what the reader finds in the row is what it finds in the first text and then what it finds
in the second, and in the end what it finds in each line alone (`ofOutput_concat`).
-/

namespace Ratchet.Text

/-- The lines of a text that have a character, from the start of the current line on. -/
def filledFrom (acc s : List Char) : List (List Char) :=
  ((linesFrom acc s).map Line.body).filter fun l => !l.isEmpty

/-- The lines of a text that have a character. -/
def filled (s : List Char) : List (List Char) := (lineBodies s).filter fun l => !l.isEmpty

lemma filledFrom_nil (acc : List Char) : filledFrom acc [] = [acc.reverse].filter fun l => !l.isEmpty := by
  cases acc <;> simp [filledFrom, linesFrom]

lemma filledFrom_of_cut {acc s s' e : List Char} (h : linesFrom acc s = ⟨acc.reverse, e⟩ :: linesFrom [] s') :
    filledFrom acc s = filledFrom acc [] ++ filledFrom [] s' := by
  rw [filledFrom_nil, filledFrom, h, filledFrom, List.map_cons, ← List.singleton_append, List.filter_append]

/-- A break ends the current line. It does not matter here that two breaks can be one: the line between them would have
no character. -/
lemma filledFrom_break {c : Char} (hc : isLineBreak c = true) (acc s : List Char) :
    filledFrom acc (c :: s) = filledFrom acc [] ++ filledFrom [] s := by
  by_cases hpair : c = '\r' ∧ ∃ s', s = '\n' :: s'
  · obtain ⟨rfl, s', rfl⟩ := hpair
    have hfeed : linesFrom [] ('\n' :: s') = ⟨[], ['\n']⟩ :: linesFrom [] s' := by simp [linesFrom, isLineBreak]
    have hempty : filledFrom [] ('\n' :: s') = filledFrom [] s' := filledFrom_of_cut hfeed
    rw [hempty, filledFrom_of_cut (linesFrom.eq_2 acc s')]
  · refine filledFrom_of_cut (e := [c]) ?_
    rw [linesFrom, if_pos hc]
    rintro s' rfl rfl
    exact hpair ⟨rfl, s', rfl⟩

lemma filledFrom_letter {c : Char} (hc : isLineBreak c = false) (acc s : List Char) :
    filledFrom acc (c :: s) = filledFrom (c :: acc) s := by
  rw [filledFrom, filledFrom, ← List.singleton_append, linesFrom_unbroken (List.forall_mem_singleton.2 hc)]
  rfl

/-- **A break parts the lines that have a character**, wherever it stands. -/
lemma filled_append_break {c : Char} (hc : isLineBreak c = true) (s t : List Char) :
    filled (s ++ c :: t) = filled s ++ filled t := by
  have hfrom : ∀ acc, filledFrom acc (s ++ c :: t) = filledFrom acc s ++ filledFrom [] t := by
    induction s with
    | nil => exact fun acc => filledFrom_break hc acc t
    | cons d s ih =>
      intro acc
      rw [List.cons_append]
      by_cases hd : isLineBreak d = true
      · rw [filledFrom_break hd, filledFrom_break hd, ih, List.append_assoc]
      · have hd : isLineBreak d = false := Bool.eq_false_iff.2 hd
        rw [filledFrom_letter hd, filledFrom_letter hd, ih]
  exact hfrom []

end Ratchet.Text

namespace Ratchet.Diagnostic

open Text

variable (here workspace : String)

/-- A line without a character reports nothing. -/
lemma ofLine?_nil : ofLine? here workspace [] = .ok none := rfl

/-- What lines report is what each of them reports, in their order. -/
lemma ofLines_eq_mapM (ls : List (List Char)) :
    ofLines here workspace ls = (do return (← ls.mapM (ofLine? here workspace)).flatMap Option.toList) := by
  induction ls with
  | nil => rfl
  | cons l ls ih =>
    rw [ofLines, ih, List.mapM_cons]
    simp

lemma ofLines_append (ls ls' : List (List Char)) :
    ofLines here workspace (ls ++ ls') =
      (do return (← ofLines here workspace ls) ++ (← ofLines here workspace ls')) := by
  simp [ofLines_eq_mapM]

/-- Lines without a character can be left out. -/
lemma ofLines_filter (ls : List (List Char)) :
    ofLines here workspace (ls.filter fun l => !l.isEmpty) = ofLines here workspace ls := by
  induction ls with
  | nil => rfl
  | cons l ls ih =>
    rcases l with _ | ⟨c, l⟩
    · rw [List.filter_cons_of_neg (by simp), ih, ofLines, ofLine?_nil]
      cases ofLines here workspace ls <;> rfl
    · rw [List.filter_cons_of_pos (by simp), ofLines, ofLines, ih]

lemma ofOutput_eq_filled (output : String) :
    ofOutput here workspace output = ofLines here workspace (filled output.toList) :=
  (ofLines_filter here workspace _).symm

/-- **A break between two outputs parts what they report.** -/
lemma ofOutput_append {c : Char} (hc : isLineBreak c = true) (a b : String) :
    ofOutput here workspace (a ++ String.singleton c ++ b) =
      (do return (← ofOutput here workspace a) ++ (← ofOutput here workspace b)) := by
  have hrow : (a ++ String.singleton c ++ b).toList = a.toList ++ c :: b.toList := by simp
  rw [ofOutput_eq_filled, hrow, filled_append_break hc, ofLines_append, ← ofOutput_eq_filled, ← ofOutput_eq_filled]

/-- Outputs in a row, by induction on those that follow. -/
lemma ofOutput_intercalate (outputs : List String) :
    ofOutput here workspace ("\n".intercalate outputs) = List.flatten <$> outputs.mapM (ofOutput here workspace) := by
  induction outputs with
  | nil => rfl
  | cons a outputs ih =>
    rcases outputs with _ | ⟨b, outputs⟩
    · simp
    · rw [String.intercalate_cons_cons, List.mapM_cons]
      refine (ofOutput_append here workspace (c := '\n') (by decide) a _).trans ?_
      rw [ih]
      simp

/-- **Outputs in a row report what they report alone**, one after the other: two outputs with a line feed between them,
any number of them, and the lines of one output. The row is refused just when one of its parts is, with the first fault;
no part changes what another reports, and one that stands there twice reports twice. -/
theorem ofOutput_concat :
    (∀ a b, ofOutput here workspace (a ++ "\n" ++ b) =
      (do return (← ofOutput here workspace a) ++ (← ofOutput here workspace b))) ∧
    (∀ outputs, ofOutput here workspace ("\n".intercalate outputs) =
      List.flatten <$> outputs.mapM (ofOutput here workspace)) ∧
    ∀ output : String, ofOutput here workspace output =
      (do return (← (lineBodies output.toList).mapM (ofLine? here workspace)).flatMap Option.toList) :=
  ⟨fun a b => ofOutput_append here workspace (c := '\n') (by decide) a b, ofOutput_intercalate here workspace,
    fun _ => ofLines_eq_mapM here workspace _⟩

end Ratchet.Diagnostic
