import Ratchet.Proofs.ImportLine.Remainder
import Ratchet.Proofs.ImportLine.Statement
import Ratchet.Proofs.Lines
import Ratchet.Strategy.UnusedImports

/-!
Editing a text twice.

The lines of an edited text are those that are left (`lines_edit`), so a second edit with the same targets meets every
line that stood below one that went at another number. It comes to nothing just when no line that is left loses
anything to the targets of the number that it has now (`edit_twice_iff`).
-/

namespace Ratchet.UnusedImports

open Text

variable {ts : List Target} {s : List Char}

/-! ### One line -/

/-- Whether the targets of a line take the name of a binding. -/
def taken (ts : List Target) : List Char → Bool := (ts.flatMap fun t => t.names).contains

/-- Whether the targets of a line take a whole statement. -/
def takesAll (ts : List Target) : Bool := ts.any fun t => t.whole

/-- What becomes of a line without its ending. -/
def rewritten (ts : List Target) (body : List Char) : ImportLine.Rewritten :=
  ImportLine.rewrite (taken ts) (takesAll ts) body

lemma dropEndWhile_append {p : Char → Bool} {b e : List Char} (hb : ∀ c ∈ b, p c = false) (he : ∀ c ∈ e, p c = true) :
    dropEndWhile p (b ++ e) = b := by
  rw [dropEndWhile, List.reverse_append, (span_run (p := p) (g := e.reverse) (s := b.reverse) ?_ ?_).2,
    List.reverse_reverse]
  · exact fun c hc => he c (List.mem_reverse.1 hc)
  · exact fun c hc => hb c (List.mem_reverse.1 (List.mem_of_mem_head? hc))

/-- Whether the ending of a line is all that stands there of carriage returns and line feeds. -/
structure Parted (l : Line) : Prop where
  body : ∀ c ∈ l.body, (c == '\r' || c == '\n') = false
  ending : ∀ c ∈ l.ending, (c == '\r' || c == '\n') = true

lemma parted_of_kind {l : Line} (h : l.Fed ∨ l.Open) : Parted l where
  body := by
    intro c hc
    have hunbroken : isLineBreak c = false := (h.elim (·.unbroken) (·.unbroken)) c hc
    rw [Bool.or_eq_false_iff]
    constructor
    · rw [beq_eq_false_iff_ne]
      rintro rfl
      exact absurd hunbroken (by decide)
    · rw [beq_eq_false_iff_ne]
      rintro rfl
      exact absurd hunbroken (by decide)
  ending := by
    rcases h with h | h
    · rcases h.ending with he | he <;> simp [he]
    · rw [h.ending]
      exact List.forall_mem_nil _

/-- A line is edited before its ending, which stays what it is. -/
lemma editLine_whole {l : Line} (h : Parted l) :
    editLine ts l.whole = if ts.isEmpty || (rewritten ts l.body).removed == 0 then (l.whole, 0)
      else (match (rewritten ts l.body).line with
        | none => []
        | some b => b ++ l.ending, (rewritten ts l.body).removed) := by
  have hdrop : dropEndWhile (fun c => c == '\r' || c == '\n') l.whole = l.body :=
    dropEndWhile_append h.body h.ending
  have hrest : l.whole.drop l.body.length = l.ending := List.drop_left
  rcases ts with _ | ⟨t, ts⟩
  · rfl
  · have hline : editLine (t :: ts) l.whole = if (rewritten (t :: ts) l.body).removed == 0 then (l.whole, 0)
        else match (rewritten (t :: ts) l.body).line with
          | none => ([], (rewritten (t :: ts) l.body).removed)
          | some b => (b ++ l.ending, (rewritten (t :: ts) l.body).removed) := by
      rw [editLine, hdrop]
      simp only [hrest]
      rfl
    rw [hline]
    simp only [List.isEmpty_cons, Bool.false_or]
    split
    · rfl
    · rcases (rewritten (t :: ts) l.body).line with _ | b <;> rfl

/-- What can become of a line: it goes, it stays as it is, or it is rewritten before its ending. -/
lemma editLine_cases (ts : List Target) {l : Line} (h : l.Fed ∨ l.Open) :
    (editLine ts l.whole).1 = [] ∨ editLine ts l.whole = (l.whole, 0) ∨
    ∃ b, (rewritten ts l.body).line = some b ∧ (rewritten ts l.body).removed ≠ 0 ∧
      (editLine ts l.whole).1 = Line.whole ⟨b, l.ending⟩ := by
  rw [editLine_whole (parted_of_kind h)]
  split
  · exact .inr (.inl rfl)
  · rename_i hsome
    rw [Bool.or_eq_true, not_or] at hsome
    rcases hline : (rewritten ts l.body).line with _ | b
    · exact .inl rfl
    · exact .inr (.inr ⟨b, rfl, by simpa using hsome.2, rfl⟩)

lemma unbroken_filling : ∀ c ∈ ImportLine.filling, isLineBreak c = false := by
  have hall : ImportLine.filling.all (fun c => isLineBreak c == false) = true := by decide
  exact fun c hc => beq_iff_eq.1 (List.all_eq_true.1 hall c hc)

/-- What is left of a line is one line, with the same ending. -/
lemma rewritten_line {l : Line} {b : List Char} (hb : (rewritten ts l.body).line = some b) :
    (l.Fed → Line.Fed ⟨b, l.ending⟩) ∧ (l.Open → Line.Open ⟨b, l.ending⟩) := by
  have hunbroken (hbody : ∀ c ∈ l.body, isLineBreak c = false) : ∀ c ∈ b, isLineBreak c = false := by
    rcases ImportLine.rewrite_text hb with rfl | ⟨-, hsub⟩
    · exact hbody
    · exact fun c hc => (List.mem_append.1 (hsub hc)).elim (hbody c) (unbroken_filling c)
  have hne (hbody : l.body ≠ []) : b ≠ [] := by
    rcases ImportLine.rewrite_text hb with rfl | ⟨hne, -⟩
    · exact hbody
    · exact hne
  exact ⟨fun h => ⟨hunbroken h.unbroken, h.ending⟩, fun h => ⟨hunbroken h.unbroken, hne h.nonempty, h.ending⟩⟩

/-- What is left of a line is a line of the same kind. -/
lemma editLine_line (ts : List Target) {l : Line} :
    (l.Fed → (editLine ts l.whole).1 = [] ∨ ∃ l' : Line, l'.Fed ∧ (editLine ts l.whole).1 = l'.whole) ∧
    (l.Open → (editLine ts l.whole).1 = [] ∨ ∃ l' : Line, l'.Open ∧ (editLine ts l.whole).1 = l'.whole) := by
  constructor
  · intro h
    rcases editLine_cases ts (.inl h) with hnone | hsame | ⟨b, hb, -, htext⟩
    · exact .inl hnone
    · exact .inr ⟨l, h, by rw [hsame]⟩
    · exact .inr ⟨_, (rewritten_line hb).1 h, htext⟩
  · intro h
    rcases editLine_cases ts (.inr h) with hnone | hsame | ⟨b, hb, -, htext⟩
    · exact .inl hnone
    · exact .inr ⟨l, h, by rw [hsame]⟩
    · exact .inr ⟨_, (rewritten_line hb).2 h, htext⟩

/-- Whether a line is no import statement, or one that does not look marked when it is not. -/
def Plain (line : List Char) : Prop :=
  ImportLine.ofText? line ≠ none →
    ∃ (s : ImportLine.Statement) (l : ImportLine.Layout s), ¬ l.Misread ∧ l.line = line

/-- A plain line that is not taken away loses nothing when it is edited again. -/
lemma editLine_again {l : Line} (h : l.Fed ∨ l.Open) (hkept : (editLine ts l.whole).1 ≠ [])
    (hplain : ts ≠ [] → Plain l.body) : (editLine ts (editLine ts l.whole).1).2 = 0 := by
  rcases eq_or_ne ts [] with rfl | hts
  · rfl
  rcases editLine_cases ts h with hnone | hsame | ⟨b, hb, hremoved, htext⟩
  · exact absurd hnone hkept
  · rw [hsame, hsame]
  · have hline : Line.Fed ⟨b, l.ending⟩ ∨ Line.Open ⟨b, l.ending⟩ := h.imp (rewritten_line hb).1 (rewritten_line hb).2
    have hagain : rewritten ts b = ⟨some b, 0⟩ := by
      rcases ImportLine.rewrite_cases (taken ts) (takesAll ts) l.body with hsame | hnone | ⟨hall, i, hi, -⟩
      · rw [rewritten, hsame] at hremoved
        exact absurd rfl hremoved
      · exact absurd (hnone.symm.trans hb) nofun
      · obtain ⟨st, lay, hmisread, hlay⟩ := hplain hts (by rw [hi]; exact nofun)
        have hcleaned := ImportLine.cleaned_of_not_misread hmisread (taken ts)
        rw [rewritten, hall, ← hlay] at hb
        rw [rewritten, hall]
        exact hcleaned.again b hb
    rw [htext, editLine_whole (parted_of_kind hline), hagain]
    simp

/-! ### The lines of a text -/

/-- The targets on the line with a number. -/
def onLine (ts : List Target) (n : ℕ) : List Target := ts.filter fun t => t.line == n

/-- The lines of a text that are left, each with what is left of it. -/
def left (ts : List Target) (s : List Char) : List (List Char) :=
  (((lines s).zipIdx 1).map fun (l, n) => (editLine (onLine ts n) l.whole).1).filter (!·.isEmpty)

/-- Whether no line that is left loses anything to the targets of the number that it has now. -/
def Settled (ts : List Target) (s : List Char) : Prop :=
  ∀ x ∈ (left ts s).zipIdx 1, (editLine (onLine ts x.2) x.1).2 = 0

instance (ts : List Target) (s : List Char) : Decidable (Settled ts s) :=
  inferInstanceAs (Decidable (∀ x ∈ (left ts s).zipIdx 1, _))

lemma whole_ne_nil {l : Line} (h : l.Fed ∨ l.Open) : l.whole ≠ [] := by
  rw [Line.whole]
  rcases h with h | h
  · rcases h.ending with he | he <;> simp [he]
  · exact List.append_ne_nil_of_left_ne_nil h.nonempty _

/-- What is left of lines are lines, by induction on them. -/
lemma exists_cut (ts : List Target) {ls : List Line} (h : Cut ls) (k : ℕ) :
    ∃ ls', Cut ls' ∧ ls'.map Line.whole =
      ((ls.zipIdx k).map fun (l, n) => (editLine (onLine ts n) l.whole).1).filter (!·.isEmpty) := by
  induction h generalizing k with
  | nil => exact ⟨[], .nil, rfl⟩
  | @last l h =>
    rcases (editLine_line (onLine ts k)).2 h with hnone | ⟨l', hl', htext⟩
    · exact ⟨[], .nil, by simp [hnone]⟩
    · exact ⟨[l'], .last hl', by simp [htext, whole_ne_nil (.inr hl')]⟩
  | @cons l ls h _ ih =>
    obtain ⟨ls', hcut, hls'⟩ := ih (k + 1)
    rcases (editLine_line (onLine ts k)).1 h with hnone | ⟨l', hl', htext⟩
    · exact ⟨ls', hcut, by simp [hnone, hls']⟩
    · exact ⟨l' :: ls', .cons hl' hcut, by simp [htext, hls', whole_ne_nil (.inl hl')]⟩

/-- **The lines of an edited text are those that are left.** -/
lemma lines_edit (h : LineFed s) : (lines (edit ts s).1).map Line.whole = left ts s := by
  obtain ⟨ls, hcut, hls⟩ := exists_cut ts h.cut 1
  have htext : (edit ts s).1 = ls.flatMap Line.whole := by
    rw [List.flatMap_def, hls, List.flatten_filter_not_isEmpty]
    simp only [edit, List.flatMap_def, List.map_map]
    rfl
  rw [htext, lines_of_cut hcut, hls]
  rfl

/-- Nothing comes of editing a text just when nothing comes of editing any of its lines. -/
lemma edit_eq_zero : (edit ts s).2 = 0 ↔
    ∀ x ∈ ((lines s).map Line.whole).zipIdx 1, (editLine (onLine ts x.2) x.1).2 = 0 := by
  have hsum : (edit ts s).2 = ((((lines s).map Line.whole).zipIdx 1).map fun x => (editLine (onLine ts x.2) x.1).2).sum := by
    rw [List.zipIdx_map]
    simp only [edit, List.map_map, List.sum]
    rfl
  rw [hsum, List.sum_eq_zero_iff, List.forall_mem_map]

/-- A line of which nothing comes stays as it is. -/
lemma editLine_eq_self {text : List Char} (h : (editLine ts text).2 = 0) : (editLine ts text).1 = text := by
  unfold editLine at h ⊢
  dsimp only at h ⊢
  split_ifs at h ⊢ with hnone hzero
  · rfl
  · rfl
  · -- Something was removed.
    split at h
    · exact absurd h (by simpa using hzero)
    · exact absurd h (by simpa using hzero)

/-- A text of which nothing comes stays as it is. -/
lemma edit_eq_self (h : (edit ts s).2 = 0) : (edit ts s).1 = s := by
  rw [edit_eq_zero, List.zipIdx_map, List.forall_mem_map] at h
  have hlines : ((lines s).zipIdx 1).map (fun (l, n) => (editLine (onLine ts n) l.whole).1) =
      ((lines s).zipIdx 1).map (Line.whole ∘ Prod.fst) := List.map_congr_left fun x hx => editLine_eq_self (h x hx)
  calc (edit ts s).1 = (((lines s).zipIdx 1).map fun (l, n) => (editLine (onLine ts n) l.whole).1).flatten := by
        simp only [edit, List.flatMap_def, List.map_map]
        rfl
    _ = (lines s).flatMap Line.whole := by rw [hlines, ← List.map_map, List.zipIdx_map_fst, List.flatMap_def]
    _ = s := flatMap_whole_lines s

/-- **A second edit comes to nothing just when the lines that are left are settled** under their new numbers. -/
theorem edit_twice_iff (h : LineFed s) : (edit ts (edit ts s).1).2 = 0 ↔ Settled ts s := by
  rw [edit_eq_zero, lines_edit h, Settled]

/-- Whether no line goes, and each line that targets point at is plain. -/
def Kept (ts : List Target) (s : List Char) : Prop :=
  ∀ x ∈ (lines s).zipIdx 1, (editLine (onLine ts x.2) x.1.whole).1 ≠ [] ∧ (onLine ts x.2 ≠ [] → Plain x.1.body)

/-- Lines that are all left keep their numbers, and what they lost they do not lose again. -/
lemma Kept.settled (h : LineFed s) (hkept : Kept ts s) : Settled ts s := by
  have hall : left ts s = ((lines s).zipIdx 1).map fun (l, n) => (editLine (onLine ts n) l.whole).1 := by
    refine List.filter_eq_self.2 fun text htext => ?_
    obtain ⟨x, hx, rfl⟩ := List.mem_map.1 htext
    simpa using (hkept x hx).1
  rintro ⟨text, n⟩ hx
  rw [hall, List.mk_mem_zipIdx_iff_le_and_getElem?_sub, List.getElem?_map, List.getElem?_zipIdx] at hx
  obtain ⟨hn, hx⟩ := hx
  rw [Option.map_map, Option.map_eq_some_iff] at hx
  obtain ⟨l, hl, rfl⟩ := hx
  have hnumber : 1 + (n - 1) = n := by omega
  have hmem : (l, n) ∈ (lines s).zipIdx 1 := List.mk_mem_zipIdx_iff_le_and_getElem?_sub.2 ⟨hn, hl⟩
  have hkind : l.Fed ∨ l.Open := h.cut.kind (List.mem_of_getElem? hl)
  simp only [Function.comp, hnumber]
  exact editLine_again hkind (hkept (l, n) hmem).1 (hkept (l, n) hmem).2

end Ratchet.UnusedImports
