import Ratchet.Proofs.Diagnostic.Line
import Ratchet.Proofs.Lines

/-!
Lines that the reader refuses.

A line is skipped or reports a diagnostic, whatever stands on it, with one exception: a header whose line or column is
told with more digits than a number may have. `Headed` says which header a line has, a file before it or not, and a
text is read to its end just when the header of none of its lines has such a position (`tolerant_iff`).
-/

namespace Ratchet.Diagnostic

open Text

variable {line : List Char} {h : Header} {here workspace : String}

/-- Nothing but blanks stands before the header of a line, and no other header follows. The last blank is taken for the
file. -/
def Fileless (line : List Char) (h : Header) : Prop :=
  ∃ blanks b tail, dropEndWhile (fun c => c == '\r' || c == '\n') line = blanks ++ b :: tail ∧
    (∀ c ∈ blanks ++ [b], isBlank c = true) ∧ b ≠ '\n' ∧ h.Written tail ∧
    ∀ f h' tail', tail = f ++ tail' → ¬ IsFile f h' tail'

/-- Whether a line has a header, after a file or after blanks only. -/
def Headed (line : List Char) (h : Header) : Prop := (∃ f, Composed line f h) ∨ Fileless line h

lemma Header.Written.head {tail : List Char} (hw : h.Written tail) : ∃ s, tail = '(' :: s := by
  cases hw
  exact ⟨_, rfl⟩

lemma fileAndHeader?_eq_none {s : List Char} :
    fileAndHeader? s = none ↔ ∀ f h tail, s = f ++ tail → ¬ IsFile f h tail := by
  constructor
  · rintro hs f h tail rfl hf
    cases hs.symm.trans hf.fileAndHeader?
  · intro hnone
    rcases hs : fileAndHeader? s with _ | ⟨f, h⟩
    · rfl
    · obtain ⟨tail, heq, hf⟩ := isFile_of_fileAndHeader? hs
      exact absurd hf (hnone f h tail heq)

lemma Fileless.split? (hl : Fileless line h) :
    ∃ b, Diagnostic.split? (dropEndWhile (fun c => c == '\r' || c == '\n') line) = some ([b], h.bare) := by
  obtain ⟨blanks, b, tail, hline, hblank, hb, hw, hnone⟩ := hl
  obtain ⟨s, rfl⟩ := hw.head
  refine ⟨b, ?_⟩
  have hsplit : blanks ++ b :: '(' :: s = (blanks ++ [b]) ++ '(' :: s := by simp
  have hparen : ¬ isBlank '(' = true := by decide
  have htake : ((blanks ++ [b]) ++ '(' :: s).takeWhile isBlank = blanks ++ [b] := by
    rw [List.takeWhile_append_of_pos hblank, List.takeWhile_cons_of_neg hparen, List.append_nil]
  have hdrop : ((blanks ++ [b]) ++ '(' :: s).dropWhile isBlank = '(' :: s := by
    rw [List.dropWhile_append_of_pos hblank, List.dropWhile_cons_of_neg hparen]
  rw [hline, hsplit, Diagnostic.split?]
  simp only [htake, hdrop, fileAndHeader?_eq_none.2 hnone, List.getLast?_append, List.getLast?_singleton,
    Option.some_or, beq_iff_eq, hb, if_false, hw.header?, Option.map_some]

/-- A line that has a header is split before it. -/
lemma Headed.split? (hl : Headed line h) :
    ∃ f, Diagnostic.split? (dropEndWhile (fun c => c == '\r' || c == '\n') line) = some (f, h.bare) := by
  rcases hl with ⟨f, hc⟩ | hl
  · exact ⟨f, hc.split?⟩
  · obtain ⟨b, hb⟩ := hl.split?
    exact ⟨[b], hb⟩

/-- A line is split before a header that it has. -/
lemma headed_of_split? {f : List Char}
    (hs : split? (dropEndWhile (fun c => c == '\r' || c == '\n') line) = some (f, h)) : Headed line h := by
  rcases hfile : fileAndHeader? ((dropEndWhile (fun c => c == '\r' || c == '\n') line).dropWhile isBlank) with _ | r
  · right
    generalize hl : dropEndWhile (fun c => c == '\r' || c == '\n') line = l at hs hfile
    simp only [split?, hfile] at hs
    split at hs
    · rename_i b hlast
      split at hs
      · cases hs
      · rename_i hb
        obtain ⟨h', hheader, heq⟩ := Option.map_eq_some_iff.1 hs
        obtain ⟨-, rfl⟩ := Prod.mk.inj heq
        obtain ⟨blanks, htake⟩ := List.getLast?_eq_some_iff.1 hlast
        have hblank : ∀ c ∈ l.takeWhile isBlank, isBlank c = true :=
          fun c hc => List.all_eq_true.1 List.all_takeWhile c hc
        refine ⟨blanks, b, l.dropWhile isBlank, ?_, htake ▸ hblank, by simpa using hb,
          written_of_header? hheader, fileAndHeader?_eq_none.1 hfile⟩
        calc dropEndWhile (fun c => c == '\r' || c == '\n') line
            = l.takeWhile isBlank ++ l.dropWhile isBlank := by rw [hl, List.takeWhile_append_dropWhile]
          _ = blanks ++ b :: l.dropWhile isBlank := by rw [htake, List.append_assoc, List.singleton_append]
    · cases hs
  · left
    rcases composed_of_split? hs with hc | ⟨b, rfl, hb⟩
    · exact ⟨f, hc⟩
    · -- A file that is found starts with no blank.
      exfalso
      simp only [split?, hfile] at hs
      obtain rfl := Option.some.inj hs
      obtain ⟨tail, htail, -⟩ := isFile_of_fileAndHeader? hfile
      have hhead := List.head?_dropWhile_not isBlank (dropEndWhile (fun c => c == '\r' || c == '\n') line)
      rw [htail] at hhead
      cases hhead.symm.trans hb

/-- Whether the positions of a header are told with no more digits than a number may have. -/
def Header.Short (h : Header) : Prop := h.line.length ≤ Number.maxDigits ∧ h.column.length ≤ Number.maxDigits

/-- Whether a line has no header, or one with positions that can be read. -/
def Legible (line : List Char) : Prop := ∀ h, Headed line h → h.Short

lemma position_isOk {ds : List Char} : (∃ n, position ds = .ok n) ↔ ds.length ≤ Number.maxDigits := by
  constructor
  · rintro ⟨n, hn⟩
    unfold position at hn
    split at hn
    · cases hn
    · omega
  · exact fun hlen => ⟨_, position_ok hlen⟩

/-- A header comes to something, if only to nothing, just when its positions can be read. -/
lemma ofHeader?_isOk {f : List Char} : (∃ r, ofHeader? here workspace f h = .ok r) ↔ h.Short := by
  constructor
  · rintro ⟨r, hr⟩
    unfold ofHeader? at hr
    rcases hline : position h.line with e | n
    · rw [hline] at hr
      cases hr
    rcases hcolumn : position h.column with e | m
    · rw [hline, hcolumn] at hr
      cases hr
    exact ⟨position_isOk.1 ⟨n, hline⟩, position_isOk.1 ⟨m, hcolumn⟩⟩
  · exact fun hshort => ⟨_, ofHeader?_ok hshort.1 hshort.2⟩

/-- A line is read just when it is legible. -/
lemma ofLine?_isOk : (∃ r, ofLine? here workspace line = .ok r) ↔ Legible line := by
  constructor
  · intro hread h hheaded
    obtain ⟨f, hsplit⟩ := hheaded.split?
    simp only [ofLine?, hsplit, ofHeader?_bare] at hread
    exact ofHeader?_isOk.1 hread
  · intro hlegible
    rw [ofLine?]
    rcases hsplit : split? (dropEndWhile (fun c => c == '\r' || c == '\n') line) with _ | ⟨f, h⟩
    · exact ⟨none, rfl⟩
    · exact ofHeader?_isOk.2 (hlegible h (headed_of_split? hsplit))

/-- Lines are read just when each of them is legible. -/
lemma ofLines_isOk {ls : List (List Char)} : (∃ ds, ofLines here workspace ls = .ok ds) ↔ ∀ l ∈ ls, Legible l := by
  induction ls with
  | nil => exact ⟨fun _ => List.forall_mem_nil _, fun _ => ⟨[], rfl⟩⟩
  | cons l ls ih =>
    have hline : (∃ r, ofLine? here workspace l = .ok r) ↔ Legible l := ofLine?_isOk
    rw [List.forall_mem_cons, ← ih, ← hline, ofLines]
    rcases ofLine? here workspace l with e | d
    · exact ⟨fun ⟨_, h⟩ => absurd h nofun, fun ⟨⟨_, h⟩, _⟩ => absurd h nofun⟩
    rcases ofLines here workspace ls with e | ds
    · exact ⟨fun ⟨_, h⟩ => absurd h nofun, fun ⟨_, ⟨_, h⟩⟩ => absurd h nofun⟩
    · exact ⟨fun _ => ⟨⟨d, rfl⟩, ⟨ds, rfl⟩⟩, fun _ => ⟨_, rfl⟩⟩

/-- **What the reader refuses.** A line, and a text with its lines, is read whatever stands there, unless a header tells
its line or its column with more digits than a number may have. -/
theorem tolerant_iff (here workspace : String) :
    (∀ line, (∃ r, ofLine? here workspace line = .ok r) ↔ Legible line) ∧
    ∀ output : String, (∃ ds, ofOutput here workspace output = .ok ds) ↔ ∀ l ∈ lineBodies output.toList, Legible l :=
  ⟨fun _ => ofLine?_isOk, fun _ => ofLines_isOk⟩

/-- The header that tells its line with ones, as many as there are to be. -/
def onesHeader (n : ℕ) : Header := ⟨List.replicate n '1', ['1'], "error".toList, "TS2304".toList, ['m']⟩

/-- A line with that header. -/
def onesLine (n : ℕ) : List Char := "a.ts(".toList ++ (List.replicate n '1' ++ ",1): error TS2304: m".toList)

lemma written_onesHeader {n : ℕ} (hn : n ≠ 0) :
    (onesHeader n).Written ('(' :: (List.replicate n '1' ++ ",1): error TS2304: m".toList)) := by
  have hones : Many isDigit (List.replicate n '1') :=
    ⟨by simpa using hn, fun c hc => List.eq_of_mem_replicate hc ▸ by decide⟩
  have hone : Many isDigit ['1'] := ⟨by decide, List.all_eq_true.1 (by decide)⟩
  have hgap : Many isBlank [' '] := ⟨by decide, List.all_eq_true.1 (by decide)⟩
  have hsame : ("error".toList.all fun c => sameLetter c c) = true := by decide
  have hkeyword : IsKeyword "error".toList :=
    ⟨"error", by decide, List.forall₂_same.2 (List.all_eq_true.1 hsame)⟩
  have hletters : Many isLetter "TS".toList := ⟨by decide, List.all_eq_true.1 (by decide)⟩
  have hdigits : Many isDigit "2304".toList := ⟨by decide, List.all_eq_true.1 (by decide)⟩
  exact .mk hones hone hgap hkeyword hgap hletters hdigits hgap.2 (by decide)

lemma composed_onesLine {n : ℕ} (hn : n ≠ 0) : Composed (onesLine n) "a.ts".toList (onesHeader n) := by
  refine ⟨[], _, ?_, List.forall_mem_nil _, by rintro _ ⟨⟩; rfl, by decide, by decide, written_onesHeader hn, ?_⟩
  · -- The line ends with no break.
    rw [dropEndWhile]
    simp [onesLine]
  · intro i hi hlt h' hw
    obtain ⟨s, hs⟩ := hw.head
    have hlt : i < 4 := hlt
    interval_cases i <;> exact absurd (List.cons.inj hs).1 (by decide)

lemma unbroken_onesLine (n : ℕ) : ∀ c ∈ onesLine n, isLineBreak c = false := by
  have hbefore : ("a.ts(".toList.all fun c => !isLineBreak c) = true := by decide
  have hafter : (",1): error TS2304: m".toList.all fun c => !isLineBreak c) = true := by decide
  intro c hc
  rcases List.mem_append.1 hc with hc | hc
  · simpa using List.all_eq_true.1 hbefore c hc
  rcases List.mem_append.1 hc with hc | hc
  · exact List.eq_of_mem_replicate hc ▸ by decide
  · simpa using List.all_eq_true.1 hafter c hc

/-- A line number of too many digits is refused, and with it the text that the line stands in. -/
theorem not_tolerant_long :
    (¬ ∃ r, ofLine? "/w" "/w" (onesLine 4301) = .ok r) ∧
      ¬ ∃ ds, ofOutput "/w" "/w" (String.ofList (onesLine 4301)) = .ok ds := by
  have hillegible : ¬ Legible (onesLine 4301) := by
    intro hlegible
    have hshort := (hlegible _ (.inl ⟨_, composed_onesLine (Nat.succ_ne_zero 4300)⟩)).1
    rw [onesHeader, List.length_replicate, Number.maxDigits] at hshort
    omega
  have hlines : lineBodies (onesLine 4301) = [onesLine 4301] := by
    have hopen : Line.Open ⟨onesLine 4301, []⟩ :=
      ⟨unbroken_onesLine 4301, List.append_ne_nil_of_left_ne_nil (List.cons_ne_nil _ _) _, rfl⟩
    have hcut := hopen.lines
    rw [Line.whole, List.append_nil] at hcut
    rw [lineBodies, hcut, List.map_singleton]
  refine ⟨fun hread => hillegible (ofLine?_isOk.1 hread), fun hread => hillegible ?_⟩
  refine ofLines_isOk.1 hread _ ?_
  rw [String.toList_ofList, hlines]
  exact List.mem_singleton_self _

end Ratchet.Diagnostic
