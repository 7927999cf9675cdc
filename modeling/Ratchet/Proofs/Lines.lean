import Mathlib.Tactic
import Ratchet.Text.Lines

/-!
Texts whose lines end with line feeds.

Lines that end with line feeds, the last one perhaps with the text, are found again when they are put in a row
(`lines_of_cut`), whichever of them are there. With other breaks that is not so: a carriage return and a line feed that
come to stand side by side are one break.
-/

namespace Ratchet.Text

attribute [local simp] linesFrom

/-- Whether a line ends with a line feed, with or without a carriage return before it. -/
structure Line.Fed (l : Line) : Prop where
  unbroken : ∀ c ∈ l.body, isLineBreak c = false
  ending : l.ending = ['\n'] ∨ l.ending = ['\r', '\n']

/-- Whether a line ends with the text. -/
structure Line.Open (l : Line) : Prop where
  unbroken : ∀ c ∈ l.body, isLineBreak c = false
  nonempty : l.body ≠ []
  ending : l.ending = []

/-- Lines that end with line feeds, the last one perhaps with the text. -/
inductive Cut : List Line → Prop
  | nil : Cut []
  | last {l : Line} (h : l.Open) : Cut [l]
  | cons {l : Line} {ls : List Line} (h : l.Fed) (hs : Cut ls) : Cut (l :: ls)

/-- Whether all line breaks of a text are line feeds, with or without a carriage return before them. -/
def LineFed (s : List Char) : Prop :=
  ∀ l ∈ lines s, l.ending = [] ∨ l.ending = ['\n'] ∨ l.ending = ['\r', '\n']

instance (s : List Char) : Decidable (LineFed s) := inferInstanceAs (Decidable (∀ l ∈ lines s, _))

lemma linesFrom_unbroken {b : List Char} (hb : ∀ c ∈ b, isLineBreak c = false) (acc s : List Char) :
    linesFrom acc (b ++ s) = linesFrom (b.reverse ++ acc) s := by
  induction b generalizing acc with
  | nil => rfl
  | cons c b ih =>
    obtain ⟨hc, hb⟩ := List.forall_mem_cons.1 hb
    have hcr : c ≠ '\r' := by
      rintro rfl
      exact absurd hc (by decide)
    rw [List.cons_append, linesFrom, if_neg (by simp [hc]), ih hb]
    · simp
    · exact fun _ h => absurd h hcr

lemma Line.Fed.lines {l : Line} (h : l.Fed) (s : List Char) : lines (l.whole ++ s) = l :: Text.lines s := by
  obtain ⟨body, ending⟩ := l
  obtain ⟨hbody, hending⟩ := h
  dsimp only at hbody hending
  rw [Text.lines, Line.whole, List.append_assoc, linesFrom_unbroken hbody]
  rcases hending with rfl | rfl
  · simp [isLineBreak, Text.lines]
  · simp [Text.lines]

lemma Line.Open.lines {l : Line} (h : l.Open) : lines l.whole = [l] := by
  obtain ⟨body, ending⟩ := l
  obtain ⟨hbody, hne, rfl⟩ := h
  rw [Text.lines, Line.whole, linesFrom_unbroken hbody, linesFrom]
  simp [show body ≠ [] from hne]

lemma Cut.kind {ls : List Line} (h : Cut ls) {l : Line} (hl : l ∈ ls) : l.Fed ∨ l.Open := by
  induction h with
  | nil => exact absurd hl List.not_mem_nil
  | last h => exact .inr (List.mem_singleton.1 hl ▸ h)
  | cons h _ ih => exact (List.mem_cons.1 hl).elim (fun heq => .inl (heq ▸ h)) ih

/-- Lines in a row are found again. -/
lemma lines_of_cut {ls : List Line} (h : Cut ls) : lines (ls.flatMap Line.whole) = ls := by
  induction h with
  | nil => rfl
  | last h => rw [List.flatMap_singleton, h.lines]
  | cons h _ ih => rw [List.flatMap_cons, h.lines, ih]

/-- The lines of a text whose breaks are line feeds, from the start of the current line on. -/
lemma cut_linesFrom {acc s : List Char} (hacc : ∀ c ∈ acc, isLineBreak c = false)
    (h : ∀ l ∈ linesFrom acc s, l.ending = [] ∨ l.ending = ['\n'] ∨ l.ending = ['\r', '\n']) :
    Cut (linesFrom acc s) := by
  have hrev : ∀ c ∈ acc.reverse, isLineBreak c = false := fun c hc => hacc c (List.mem_reverse.1 hc)
  fun_induction linesFrom acc s with
  | case1 acc hempty => exact .nil
  | case2 acc hempty => exact .last ⟨hrev, by simpa using hempty, rfl⟩
  | case3 acc s ih =>
    obtain ⟨-, h⟩ := List.forall_mem_cons.1 h
    exact .cons ⟨hrev, .inr rfl⟩ (ih (List.forall_mem_nil _) h (List.forall_mem_nil _))
  | case4 acc c s _ hbreak ih =>
    obtain ⟨hfirst, h⟩ := List.forall_mem_cons.1 h
    exact .cons ⟨hrev, hfirst.resolve_left (List.cons_ne_nil c [])⟩
      (ih (List.forall_mem_nil _) h (List.forall_mem_nil _))
  | case5 acc c s _ hbreak ih =>
    have hacc' : ∀ d ∈ c :: acc, isLineBreak d = false := List.forall_mem_cons.2 ⟨by simpa using hbreak, hacc⟩
    exact ih hacc' h fun d hd => hacc' d (List.mem_reverse.1 hd)

lemma LineFed.cut {s : List Char} (h : LineFed s) : Cut (lines s) := cut_linesFrom (List.forall_mem_nil _) h

end Ratchet.Text
