import Mathlib
import Ratchet.Diagnostic.Line

/-!
The grammar of lines.

`Header.Written` says how the part of a line after its file may be written, and `Composed` how a whole line
is put together: the file is what stands before the first header. The reader accepts exactly the lines that
are composed, and it recovers what they were composed of.
-/

namespace Ratchet

/-! ### Runs of characters -/

namespace Text

/-- One or more characters that are accepted. -/
def Many (p : Char → Bool) (s : List Char) : Prop := s ≠ [] ∧ ∀ c ∈ s, p c = true

/-- The two texts are the same up to letter case; the first one has basic characters. -/
def SameLetters (p s : List Char) : Prop := List.Forall₂ (fun a b => sameLetter a b = true) p s

lemma dropLetters?_eq_some {p s r : List Char} :
    dropLetters? p s = some r ↔ ∃ k, s = k ++ r ∧ SameLetters p k := by
  induction p generalizing s with
  | nil =>
    constructor
    · rintro h
      exact ⟨[], (Option.some.inj h), .nil⟩
    · rintro ⟨k, rfl, h⟩
      obtain rfl := List.forall₂_nil_left_iff.1 h
      rfl
  | cons a p ih =>
    cases s with
    | nil =>
      refine iff_of_false nofun ?_
      rintro ⟨k, hk, h⟩
      obtain ⟨rfl, -⟩ := List.append_eq_nil_iff.1 hk.symm
      exact absurd h nofun
    | cons c s =>
      rw [dropLetters?]
      constructor
      · intro h
        split at h
        · rename_i hc
          obtain ⟨k, rfl, hk⟩ := ih.1 h
          exact ⟨c :: k, rfl, .cons hc hk⟩
        · exact absurd h nofun
      · rintro ⟨k, hk, h⟩
        obtain ⟨d, k, hc, hk', rfl⟩ := List.forall₂_cons_left_iff.1 h
        obtain ⟨rfl, rfl⟩ := List.cons.inj hk
        rw [if_pos hc]
        exact ih.2 ⟨k, rfl, hk'⟩

lemma SameLetters.not_mem {p s : List Char} {c : Char} (h : SameLetters p s)
    (hp : p.all (fun a => !sameLetter a c) = true) : c ∉ s := by
  induction h with
  | nil => exact List.not_mem_nil
  | cons hab _ ih =>
    rw [List.all_cons, Bool.and_eq_true] at hp
    rw [List.mem_cons]
    rintro (rfl | hmem)
    · simp [hab] at hp
    · exact ih hp.2 hmem

lemma isAlpha_cases {c : Char} (h : c.isAlpha = true) :
    (0x41 ≤ c.toNat ∧ c.toNat ≤ 0x5a) ∨ (0x61 ≤ c.toNat ∧ c.toNat ≤ 0x7a) := by
  simp only [Char.isAlpha, Char.isUpper, Char.isLower, Bool.or_eq_true, Bool.and_eq_true, decide_eq_true_eq,
    ge_iff_le, UInt32.le_iff_toNat_le, Char.toNat_val] at h
  exact h

/-- A letter is a basic letter or one of the four that fold onto one. -/
lemma isLetter_cases {c : Char} (h : isLetter c = true) :
    (0x41 ≤ c.toNat ∧ c.toNat ≤ 0x5a) ∨ (0x61 ≤ c.toNat ∧ c.toNat ≤ 0x7a) ∨ c.toNat = 0x130 ∨ c.toNat = 0x131 ∨
      c.toNat = 0x17f ∨ c.toNat = 0x212a := by
  have basic {x : Char} (hx : x.toLower.isAlpha = true) :
      (0x41 ≤ x.toNat ∧ x.toNat ≤ 0x5a) ∨ (0x61 ≤ x.toNat ∧ x.toNat ≤ 0x7a) := by
    unfold Char.toLower at hx
    split at hx
    · rename_i hu
      simp only [ge_iff_le, UInt32.le_iff_toNat_le, Char.toNat_val] at hu
      exact .inl hu
    · exact isAlpha_cases hx
  unfold isLetter folded at h
  split at h
  · exact .inr (.inr (.inl ‹_›))
  · exact .inr (.inr (.inr (.inl ‹_›)))
  · exact .inr (.inr (.inr (.inr (.inl ‹_›))))
  · exact .inr (.inr (.inr (.inr (.inr ‹_›))))
  · rcases basic h with h | h <;> simp [h]

lemma not_isBlank_of_isLetter {c : Char} (h : isLetter c = true) : isBlank c = false := by
  rw [Bool.eq_false_iff]
  intro hb
  simp only [isBlank, Bool.or_eq_true, Bool.and_eq_true, decide_eq_true_eq, beq_iff_eq] at hb
  rcases isLetter_cases h with h | h | h | h | h | h <;> omega

lemma not_isLetter_of_isDigit {c : Char} (h : isDigit c = true) : isLetter c = false := by
  rw [Bool.eq_false_iff]
  intro hl
  have hc := isLetter_cases hl
  simp only [isDigit, digitValue?] at h
  split at h
  · rename_i hn
    simp only [Bool.and_eq_true, decide_eq_true_eq] at hn
    omega
  · split at h
    · exact absurd h nofun
    · -- Only the kelvin sign is past the first script with digits, and it is no digit.
      rw [show c.toNat = 0x212a by omega] at h
      revert h
      decide

lemma isLetter_of_sameLetter {a c : Char} (ha : a.toLower.isAlpha = true) (h : sameLetter a c = true) :
    isLetter c = true := by
  rw [isLetter, ← beq_iff_eq.1 h]
  exact ha

end Text

namespace Diagnostic

open Text

/-! ### The parts of a header -/

lemma some?_eq_some {p : Char → Bool} {s t r : List Char} :
    some? p s = some (t, r) ↔ s = t ++ r ∧ Many p t ∧ ∀ c ∈ r.head?, p c = false := by
  unfold some?
  constructor
  · intro h
    simp only at h
    split at h
    · exact absurd h nofun
    · rename_i hne
      obtain ⟨rfl, rfl⟩ := Prod.mk.inj (Option.some.inj h)
      refine ⟨(List.takeWhile_append_dropWhile).symm, ⟨by simpa using hne, fun c hc => ?_⟩, fun c hc => ?_⟩
      · exact (List.all_eq_true.1 List.all_takeWhile) c hc
      · have hd := List.head?_dropWhile_not p s
        rwa [Option.mem_def.1 hc] at hd
  · rintro ⟨rfl, ⟨hne, hall⟩, hhead⟩
    have hr : r.takeWhile p = [] ∧ r.dropWhile p = r := by
      cases r with
      | nil => exact ⟨rfl, rfl⟩
      | cons c r => simp [hhead c rfl]
    simp [List.takeWhile_append_of_pos hall, List.dropWhile_append_of_pos hall, hr, hne]

lemma mark?_eq_some {c : Char} {s r : List Char} : mark? c s = some r ↔ s = c :: r := by
  cases s with
  | nil => simp [mark?]
  | cons x s =>
    rw [mark?]
    split <;> simp_all

/-- The text is a word that tells a severity, in any letter case. -/
def IsKeyword (k : List Char) : Prop := ∃ w ∈ keywords, SameLetters w.toList k

lemma isLetter_of_isKeyword {k : List Char} (h : IsKeyword k) : ∃ c r, k = c :: r ∧ isLetter c = true := by
  obtain ⟨w, hw, hk⟩ := h
  have first : ∃ a p, w.toList = a :: p ∧ a.toLower.isAlpha = true := by
    simp only [keywords, List.mem_cons, List.not_mem_nil, or_false] at hw
    rcases hw with rfl | rfl | rfl | rfl | rfl <;> exact ⟨_, _, rfl, by decide⟩
  obtain ⟨a, p, hp, ha⟩ := first
  rw [hp] at hk
  obtain ⟨c, r, hc, -, rfl⟩ := List.forall₂_cons_left_iff.1 hk
  exact ⟨c, r, rfl, isLetter_of_sameLetter ha hc⟩

/-- Words that tell severities are told apart by their first letters. -/
lemma keyword_unique {v w : String} {k l r t : List Char} (hv : v ∈ keywords) (hw : w ∈ keywords)
    (hk : SameLetters v.toList k) (hl : SameLetters w.toList l) (h : k ++ r = l ++ t) : v = w := by
  have first : ∀ u ∈ keywords, ∃ a p, u.toList = a :: p ∧ ∀ x ∈ keywords, ∀ b q, x.toList = b :: q →
      a.toLower = b.toLower → u = x := by
    intro u hu
    simp only [keywords, List.mem_cons, List.not_mem_nil, or_false] at hu
    rcases hu with rfl | rfl | rfl | rfl | rfl <;>
      refine ⟨_, _, rfl, fun x hx b q hb => ?_⟩ <;>
      simp only [keywords, List.mem_cons, List.not_mem_nil, or_false] at hx <;>
      rcases hx with rfl | rfl | rfl | rfl | rfl <;>
      obtain ⟨rfl, -⟩ := List.cons.inj hb <;> decide
  obtain ⟨a, p, hp, ha⟩ := first v hv
  obtain ⟨b, q, hq, -⟩ := first w hw
  rw [hp] at hk
  rw [hq] at hl
  obtain ⟨c, k, hac, -, rfl⟩ := List.forall₂_cons_left_iff.1 hk
  obtain ⟨d, l, hbd, -, rfl⟩ := List.forall₂_cons_left_iff.1 hl
  obtain rfl : c = d := (List.cons.inj h).1
  exact ha w hw b q hq ((beq_iff_eq.1 hac).trans (beq_iff_eq.1 hbd).symm)

lemma some?_isBlank_isSome {r : List Char} : (some? isBlank r).isSome = true ↔ ∃ c ∈ r.head?, isBlank c = true := by
  cases r with
  | nil => simp [some?]
  | cons c r =>
    simp only [some?, List.takeWhile_cons, List.head?_cons, Option.mem_def, Option.some.injEq, exists_eq_left']
    split <;> simp_all

/-- What the reader of keywords answers for one word. -/
lemma dropLetters?_blank_eq_some {s : List Char} {w : String} {x : List Char × List Char} :
    (match dropLetters? w.toList s with
      | some r => if (some? isBlank r).isSome then some (s.take w.length, r) else none
      | none => none) = some x ↔
      s = x.1 ++ x.2 ∧ SameLetters w.toList x.1 ∧ ∃ c ∈ x.2.head?, isBlank c = true := by
  constructor
  · intro h
    split at h
    · rename_i r hr
      obtain ⟨k, rfl, hk⟩ := dropLetters?_eq_some.1 hr
      split at h
      · rename_i hb
        obtain rfl := Option.some.inj h
        have hlen : k.length = w.length := by rw [← hk.length_eq, String.length_toList]
        rw [← hlen, List.take_left]
        exact ⟨rfl, hk, some?_isBlank_isSome.1 hb⟩
      · cases h
    · cases h
  · rintro ⟨hs, hk, hb⟩
    have hlen : x.1.length = w.length := by rw [← hk.length_eq, String.length_toList]
    rw [dropLetters?_eq_some.2 ⟨x.1, hs, hk⟩]
    simp only [some?_isBlank_isSome.2 hb, if_true]
    rw [hs, ← hlen, List.take_left]

lemma keyword?_eq_some {s k r : List Char} :
    keyword? s = some (k, r) ↔ s = k ++ r ∧ IsKeyword k ∧ ∃ c ∈ r.head?, isBlank c = true := by
  constructor
  · intro h
    obtain ⟨w, hw, hx⟩ := List.exists_of_findSome?_eq_some h
    obtain ⟨hs, hk, hb⟩ := dropLetters?_blank_eq_some.1 hx
    exact ⟨hs, ⟨w, hw, hk⟩, hb⟩
  · rintro ⟨hs, ⟨w, hw, hk⟩, hb⟩
    cases hf : keyword? s with
    | none =>
      have hnone := List.findSome?_eq_none_iff.1 hf w hw
      cases hnone.symm.trans ((dropLetters?_blank_eq_some (x := (k, r))).2 ⟨hs, hk, hb⟩)
    | some x =>
      obtain ⟨v, hv, hx⟩ := List.exists_of_findSome?_eq_some hf
      obtain ⟨hs', hk', hb'⟩ := dropLetters?_blank_eq_some.1 hx
      obtain rfl := keyword_unique hv hw hk' hk (hs'.symm.trans hs)
      rw [← hx]
      exact (dropLetters?_blank_eq_some (x := (k, r))).2 ⟨hs, hk, hb⟩

/-! ### Headers -/

/-- How a header is written: a position in parentheses, a word that tells a severity, a code of letters and
digits, and a message that takes up what is left. Blanks stand around the word, and may stand before the
message. -/
inductive Header.Written : Header → List Char → Prop
  | mk {line column gap keyword gap' letters digits gap'' message : List Char}
      (hline : Many isDigit line) (hcolumn : Many isDigit column) (hgap : Many isBlank gap)
      (hkeyword : IsKeyword keyword) (hgap' : Many isBlank gap') (hletters : Many isLetter letters)
      (hdigits : Many isDigit digits) (hgap'' : ∀ c ∈ gap'', isBlank c = true) (hmessage : '\n' ∉ message) :
      Header.Written ⟨line, column, keyword, letters ++ digits, message⟩
        ('(' :: (line ++ ',' :: (column ++ ')' :: ':' :: (gap ++ (keyword ++ (gap' ++ (letters ++
          (digits ++ ':' :: (gap'' ++ message))))))))) 

/-- A header without the blanks before its message. -/
def Header.bare (h : Header) : Header := { h with message := h.message.dropWhile isBlank }

/-- A header is read as it was written. -/
theorem Header.Written.header? {h : Header} {s : List Char} (hw : h.Written s) :
    Diagnostic.header? s = some h.bare := by
  cases hw with
  | @mk line column gap keyword gap' letters digits gap'' message
      hline hcolumn hgap hkeyword hgap' hletters hdigits hgap'' hmessage =>
    obtain ⟨k, ks, rfl, hk⟩ := isLetter_of_isKeyword hkeyword
    obtain ⟨g, gs, rfl⟩ := List.exists_cons_of_ne_nil hgap'.1
    obtain ⟨l, ls, rfl⟩ := List.exists_cons_of_ne_nil hletters.1
    obtain ⟨d, ds, rfl⟩ := List.exists_cons_of_ne_nil hdigits.1
    have hl := hletters.2 l List.mem_cons_self
    have hd := hdigits.2 d List.mem_cons_self
    have message_ne : '\n' ∉ message.dropWhile isBlank := fun h => hmessage ((List.dropWhile_sublist _).mem h)
    unfold Diagnostic.header?
    simp only [Option.bind_eq_bind]
    rw [mark?_eq_some.2 rfl, Option.bind_some,
      some?_eq_some.2 ⟨rfl, hline, by simp [show isDigit ',' = false by decide]⟩, Option.bind_some,
      mark?_eq_some.2 rfl, Option.bind_some,
      some?_eq_some.2 ⟨rfl, hcolumn, by simp [show isDigit ')' = false by decide]⟩, Option.bind_some,
      mark?_eq_some.2 rfl, Option.bind_some, mark?_eq_some.2 rfl, Option.bind_some,
      some?_eq_some.2 ⟨rfl, hgap, by simp [not_isBlank_of_isLetter hk]⟩, Option.bind_some,
      keyword?_eq_some.2 ⟨rfl, hkeyword, g, rfl, hgap'.2 g List.mem_cons_self⟩, Option.bind_some,
      some?_eq_some.2 ⟨rfl, hgap', by simp [not_isBlank_of_isLetter hl]⟩, Option.bind_some,
      some?_eq_some.2 ⟨rfl, hletters, by simp [not_isLetter_of_isDigit hd]⟩, Option.bind_some,
      some?_eq_some.2 ⟨rfl, hdigits, by simp [show isDigit ':' = false by decide]⟩, Option.bind_some,
      mark?_eq_some.2 rfl, Option.bind_some]
    simp only [List.dropWhile_append_of_pos hgap'', List.contains_iff_mem, message_ne, if_false, Header.bare]

/-- What is read as a header is written as one. -/
theorem written_of_header? {h : Header} {s : List Char} (hs : Diagnostic.header? s = some h) : h.Written s := by
  unfold Diagnostic.header? at hs
  simp only [Option.bind_eq_bind, Option.bind_eq_some_iff, mark?_eq_some, some?_eq_some, keyword?_eq_some,
    Prod.exists] at hs
  obtain ⟨_, rfl, line, _, ⟨rfl, hline, -⟩, _, rfl, column, _, ⟨rfl, hcolumn, -⟩, _, rfl, _, rfl, gap, _,
    ⟨rfl, hgap, -⟩, keyword, _, ⟨rfl, hkeyword, -⟩, gap', _, ⟨rfl, hgap', -⟩, letters, _,
    ⟨rfl, hletters, -⟩, digits, _, ⟨rfl, hdigits, -⟩, rest, rfl, hs⟩ := hs
  split at hs
  · exact absurd hs nofun
  · rename_i hmessage
    obtain rfl := Option.some.inj hs
    have hblank : ∀ c ∈ rest.takeWhile isBlank, isBlank c = true :=
      fun c hc => List.all_eq_true.1 List.all_takeWhile c hc
    have hbreak : '\n' ∉ rest.dropWhile isBlank := by simpa only [List.contains_iff_mem] using hmessage
    have hw := Header.Written.mk hline hcolumn hgap hkeyword hgap' hletters hdigits hblank hbreak
    rwa [List.takeWhile_append_dropWhile] at hw

lemma header?_eq_none {s : List Char} : Diagnostic.header? s = none ↔ ∀ h : Header, ¬ h.Written s := by
  constructor
  · intro hs h hw
    exact absurd (hs.symm.trans hw.header?) nofun
  · intro hs
    cases h : Diagnostic.header? s with
    | none => rfl
    | some h' => exact absurd (written_of_header? h) (hs h')

/-! ### Whole lines -/

/-- The file of a line: what stands before the first header after its first character. -/
structure IsFile (f : List Char) (h : Header) (tail : List Char) : Prop where
  ne_nil : f ≠ []
  oneLine : '\n' ∉ f
  header : h.Written tail
  first : ∀ i, 0 < i → i < f.length → ∀ h' : Header, ¬ h'.Written (f.drop i ++ tail)

lemma fileAndHeader?_eq_some {s f : List Char} {h : Header} :
    fileAndHeader? s = some (f, h) ↔
      ∃ tail, s = f ++ tail ∧ f ≠ [] ∧ '\n' ∉ f ∧ header? tail = some h ∧
        ∀ i, 0 < i → i < f.length → header? (f.drop i ++ tail) = none := by
  induction s generalizing f with
  | nil => 
    refine iff_of_false nofun ?_
    rintro ⟨tail, hs, hf, -⟩
    exact hf (List.append_eq_nil_iff.1 hs.symm).1
  | cons c s ih =>
    rw [fileAndHeader?]
    constructor
    · intro hs
      split at hs
      · exact absurd hs nofun
      · rename_i hc
        have hc : '\n' ≠ c := fun h => hc (beq_iff_eq.2 h.symm)
        split at hs
        · rename_i h' hh
          obtain ⟨rfl, rfl⟩ := Prod.mk.inj (Option.some.inj hs)
          exact ⟨s, rfl, nofun, by simpa using hc, hh, fun i hi hlt => by simp at hlt; omega⟩
        · rename_i hh
          obtain ⟨⟨f', h'⟩, hf, heq⟩ := Option.map_eq_some_iff.1 hs
          obtain ⟨rfl, rfl⟩ := Prod.mk.inj heq
          obtain ⟨tail, rfl, hne, hn, ht, hfirst⟩ := ih.1 hf
          refine ⟨tail, rfl, nofun, by simp [hc, hn], ht, fun i hi hlt => ?_⟩
          obtain ⟨i, rfl⟩ := Nat.exists_eq_add_of_lt hi
          simp only [Nat.zero_add, List.drop_succ_cons]
          rcases Nat.eq_zero_or_pos i with rfl | hpos
          · exact hh
          · exact hfirst i hpos (by simpa using hlt)
    · rintro ⟨tail, hs, hne, hn, ht, hfirst⟩
      obtain ⟨d, f, rfl⟩ := List.exists_cons_of_ne_nil hne
      rw [List.cons_append] at hs
      obtain ⟨rfl, rfl⟩ := List.cons.inj hs
      have hc : ¬ (c == '\n') = true := fun h => hn (by simp [beq_iff_eq.1 h])
      rw [if_neg hc]
      cases f with
      | nil => simp [ht]
      | cons d f =>
        have hh : header? (d :: f ++ tail) = none := hfirst 1 Nat.one_pos (by simp)
        have hrest := ih.2 ⟨tail, rfl, nofun, fun h => hn (List.mem_cons_of_mem _ h), ht, fun i hi hlt =>
          hfirst (i + 1) (Nat.succ_pos i) (by simpa using hlt)⟩
        simp only [hh, hrest, Option.map_some]

lemma IsFile.fileAndHeader? {f tail : List Char} {h : Header} (hf : IsFile f h tail) :
    Diagnostic.fileAndHeader? (f ++ tail) = some (f, h.bare) :=
  fileAndHeader?_eq_some.2 ⟨tail, rfl, hf.ne_nil, hf.oneLine, hf.header.header?, fun i hi hlt =>
    header?_eq_none.2 (hf.first i hi hlt)⟩

lemma isFile_of_fileAndHeader? {s f : List Char} {h : Header} (hs : fileAndHeader? s = some (f, h)) :
    ∃ tail, s = f ++ tail ∧ IsFile f h tail := by
  obtain ⟨tail, rfl, hne, hn, ht, hfirst⟩ := fileAndHeader?_eq_some.1 hs
  exact ⟨tail, rfl, hne, hn, written_of_header? ht, fun i hi hlt => header?_eq_none.1 (hfirst i hi hlt)⟩

/-- How a line is put together: blanks, a file that starts with none, and a header; line breaks at its end do
not count. -/
def Composed (line f : List Char) (h : Header) : Prop :=
  ∃ blanks tail, dropEndWhile (fun c => c == '\r' || c == '\n') line = blanks ++ (f ++ tail) ∧
    (∀ c ∈ blanks, isBlank c = true) ∧ (∀ c ∈ f.head?, isBlank c = false) ∧ IsFile f h tail

lemma Composed.split? {line f : List Char} {h : Header} (hc : Composed line f h) :
    Diagnostic.split? (dropEndWhile (fun c => c == '\r' || c == '\n') line) = some (f, h.bare) := by
  obtain ⟨blanks, tail, hline, hblanks, hhead, hf⟩ := hc
  have hrest : (f ++ tail).dropWhile isBlank = f ++ tail := by
    obtain ⟨c, f, rfl⟩ := List.exists_cons_of_ne_nil hf.ne_nil
    simp [hhead c rfl]
  rw [hline, Diagnostic.split?]
  simp only [List.dropWhile_append_of_pos hblanks, hrest, hf.fileAndHeader?]

/-- A line that is split is composed, or its file is a single blank. -/
lemma composed_of_split? {line f : List Char} {h : Header}
    (hs : split? (dropEndWhile (fun c => c == '\r' || c == '\n') line) = some (f, h)) :
    Composed line f h ∨ ∃ b, f = [b] ∧ isBlank b = true := by
  unfold split? at hs
  simp only at hs
  generalize hl : dropEndWhile (fun c => c == '\r' || c == '\n') line = l at hs
  have hblanks : ∀ c ∈ l.takeWhile isBlank, isBlank c = true :=
    fun c hc => List.all_eq_true.1 List.all_takeWhile c hc
  split at hs
  · rename_i r hr
    obtain rfl := Option.some.inj hs
    obtain ⟨tail, htail, hf⟩ := isFile_of_fileAndHeader? hr
    refine .inl ⟨l.takeWhile isBlank, tail, ?_, hblanks, fun c hc => ?_, hf⟩
    · rw [hl, ← htail, List.takeWhile_append_dropWhile]
    · have hd := List.head?_dropWhile_not isBlank l
      rw [htail, List.head?_append, Option.mem_def.1 hc] at hd
      exact hd
  · split at hs
    · rename_i b hb
      split at hs
      · exact absurd hs nofun
      · obtain ⟨h', -, heq⟩ := Option.map_eq_some_iff.1 hs
        obtain ⟨rfl, rfl⟩ := Prod.mk.inj heq
        exact .inr ⟨b, rfl, hblanks b (List.mem_of_getLast? hb)⟩
    · exact absurd hs nofun

/-! ### Project files -/

/-- A project file in brackets, after blanks. -/
inductive ProjectMark : List Char → Prop
  | mk {gap path ending : List Char} {e : String} (hgap : Many isBlank gap) (hpath : path ≠ [])
      (hinside : ']' ∉ path) (he : e ∈ projectEndings) (hending : SameLetters e.toList ending) :
      ProjectMark (gap ++ '[' :: (path ++ ending ++ [']']))

/-- The text before the longest project mark that ends `s`; the whole of `s` when none does. -/
def Unmarked (s t : List Char) : Prop :=
  (∃ mark, s = t ++ mark ∧ (mark = [] ∨ ProjectMark mark)) ∧
    ∀ t' mark, s = t' ++ mark → ProjectMark mark → t.length ≤ t'.length

lemma not_mem_of_isEnding {e : String} {ending : List Char} (he : e ∈ projectEndings)
    (h : SameLetters e.toList ending) : ']' ∉ ending := by
  refine h.not_mem ?_
  simp only [projectEndings, List.mem_cons, List.not_mem_nil, or_false] at he
  rcases he with rfl | rfl | rfl | rfl <;> decide

lemma isProjectMark_iff {s : List Char} : isProjectMark s = true ↔ ProjectMark s := by
  constructor
  · intro h
    unfold isProjectMark at h
    split at h
    · rename_i gap r hsome
      obtain ⟨rfl, hgap, -⟩ := some?_eq_some.1 hsome
      split at h
      · rename_i back hback
        obtain rfl : r = back.reverse ++ [']'] := by rw [← List.reverse_reverse r, hback, List.reverse_cons]
        rw [Bool.and_eq_true, List.any_eq_true] at h
        obtain ⟨hin, e, he, h⟩ := h
        rw [Bool.and_eq_true, decide_eq_true_eq, beq_iff_eq, dropLetters?_eq_some] at h
        obtain ⟨hlen, ending, hdrop, hending⟩ := h
        rw [List.append_nil] at hdrop
        rw [← List.take_append_drop (back.length - e.length) back.reverse, hdrop]
        refine .mk hgap ?_ (fun hmem => ?_) he hending
        · rw [Ne, List.take_eq_nil_iff]
          rintro (h0 | h0)
          · omega
          · simp [List.reverse_eq_nil_iff.1 h0] at hlen
        · have := List.mem_reverse.1 (List.mem_of_mem_take hmem)
          simp [this] at hin
      · cases h
    · cases h
  · rintro ⟨hgap, hpath, hinside, he, hending⟩
    rename_i gap path ending e
    have hlen : ending.length = e.length := by rw [← hending.length_eq, String.length_toList]
    have hpos := List.length_pos_iff.2 hpath
    have hin := not_mem_of_isEnding he hending
    unfold isProjectMark
    rw [some?_eq_some.2 ⟨rfl, hgap, by simp [show isBlank '[' = false by decide]⟩]
    simp only [List.reverse_append, List.reverse_cons, List.reverse_nil, List.nil_append, List.cons_append,
      Bool.and_eq_true, List.any_eq_true]
    refine ⟨by simp [hinside, hin], e, he, ?_⟩
    rw [decide_eq_true_eq, beq_iff_eq, dropLetters?_eq_some]
    refine ⟨by simp [hlen, hpos], ending, ?_, hending⟩
    simp [hlen]

/-- The message that is kept is the message without its project file. -/
lemma unmarked_dropProject (s : List Char) : Unmarked s (dropProject s) := by
  have not_nil : ¬ ProjectMark [] := fun h => absurd (isProjectMark_iff.2 h) (by decide)
  induction s with
  | nil =>
    refine ⟨⟨[], rfl, .inl rfl⟩, fun t' mark hs hm => ?_⟩
    rw [(List.append_eq_nil_iff.1 hs.symm).2] at hm
    exact absurd hm not_nil
  | cons c s ih =>
    rw [dropProject]
    split
    · rename_i h
      exact ⟨⟨c :: s, rfl, .inr (isProjectMark_iff.1 h)⟩, fun t' mark _ _ => Nat.zero_le _⟩
    · rename_i h
      obtain ⟨⟨mark, hs, hmark⟩, hleast⟩ := ih
      refine ⟨⟨mark, congrArg (c :: ·) hs, hmark⟩, fun t' mark' hs' hm => ?_⟩
      cases t' with
      | nil =>
        rw [List.nil_append] at hs'
        exact absurd (isProjectMark_iff.2 (hs' ▸ hm)) h
      | cons d t' =>
        have := hleast t' mark' (List.cons.inj hs').2 hm
        simpa using this

/-! ### What is recovered -/

/-- The diagnostic holds what the line was composed of: the file seen from the workspace, the position, the
code in capitals, the message without blanks around it and without its project file, and the severity that the
keyword tells of them. -/
structure Recovered (here workspace : String) (f : List Char) (h : Header) (d : Diagnostic) : Prop where
  file : d.file = Path.clean here workspace (String.ofList f)
  line : d.line = digitsValue h.line
  column : d.column = digitsValue h.column
  code : d.code = String.ofList (capitalized h.code)
  message : Unmarked (trimList h.message) d.message.toList
  severity : d.severity = .ofKeyword (String.ofList h.keyword) d.code d.message

lemma position_ok {ds : List Char} (h : ds.length ≤ Number.maxDigits) : position ds = .ok (digitsValue ds) := by
  rw [position, if_neg (by omega)]

lemma position_eq_ok {ds : List Char} {n : Nat} (h : position ds = .ok n) : n = digitsValue ds := by
  unfold position at h
  split at h
  · exact absurd h nofun
  · exact (Except.ok.inj h).symm

@[simp] lemma Header.bare_line (h : Header) : h.bare.line = h.line := rfl

@[simp] lemma Header.bare_column (h : Header) : h.bare.column = h.column := rfl

@[simp] lemma Header.bare_keyword (h : Header) : h.bare.keyword = h.keyword := rfl

@[simp] lemma Header.bare_code (h : Header) : h.bare.code = h.code := rfl

@[simp] lemma Header.trimList_bare (h : Header) : trimList h.bare.message = trimList h.message := by
  rw [Header.bare, trimList, trimList, trimWhile, trimWhile, List.dropWhile_idempotent]

/-- The diagnostic that a file and a header report. -/
def Header.report (here workspace : String) (f : List Char) (h : Header) : Diagnostic :=
  let code := String.ofList (capitalized h.code)
  let message := String.ofList (dropProject (trimList h.message))
  ⟨Path.clean here workspace (String.ofList f), digitsValue h.line, digitsValue h.column, code, message,
    .ofKeyword (String.ofList h.keyword) code message⟩

lemma recovered_report (here workspace : String) (f : List Char) (h : Header) :
    Recovered here workspace f h (h.report here workspace f) where
  file := rfl
  line := rfl
  column := rfl
  code := rfl
  message := by
    simp only [Header.report, String.toList_ofList]
    exact unmarked_dropProject _
  severity := by simp only [Header.report]

lemma ofHeader?_ok {here workspace : String} {f : List Char} {h : Header}
    (hline : h.line.length ≤ Number.maxDigits) (hcolumn : h.column.length ≤ Number.maxDigits) :
    ofHeader? here workspace f h =
      .ok (if digitsValue h.line < 1 ∨ digitsValue h.column < 1 ∨ Path.clean here workspace (String.ofList f) = ""
        then none else some (h.report here workspace f)) := by
  unfold ofHeader?
  simp only [position_ok hline, position_ok hcolumn, bind, Except.bind, pure, Except.pure, Header.report,
    Nat.lt_one_iff, Bool.or_eq_true, beq_iff_eq, String.isEmpty_iff, or_assoc]
  split <;> rfl

lemma ofHeader?_bare (here workspace : String) (f : List Char) (h : Header) :
    ofHeader? here workspace f h.bare = ofHeader? here workspace f h := by
  simp only [ofHeader?, Header.bare_line, Header.bare_column, Header.bare_keyword, Header.bare_code,
    Header.trimList_bare]

/-- What a file and a header report, when they do. -/
lemma ofHeader?_eq_some {here workspace : String} {f : List Char} {h : Header} {d : Diagnostic}
    (hd : ofHeader? here workspace f h = .ok (some d)) :
    d = h.report here workspace f ∧ Path.clean here workspace (String.ofList f) ≠ "" := by
  unfold ofHeader? at hd
  cases hl : position h.line with
  | error e => simp [hl, bind, Except.bind] at hd
  | ok l =>
    cases hc : position h.column with
    | error e => simp [hl, hc, bind, Except.bind] at hd
    | ok c =>
      obtain rfl := position_eq_ok hl
      obtain rfl := position_eq_ok hc
      simp only [hl, hc, bind, Except.bind, pure, Except.pure] at hd
      split at hd
      · exact absurd (Except.ok.inj hd) nofun
      · rename_i hkeep
        exact ⟨(Option.some.inj (Except.ok.inj hd)).symm, by simp_all⟩

lemma clean_blank (here workspace : String) {b : Char} (hb : isBlank b = true) :
    Path.clean here workspace (String.ofList [b]) = "" := by
  have htrim : trimList [b] = [] := by simp [trimList, trimWhile, hb]
  have hnil : trimWhile (fun c => c == '\'' || c == '"') [] = [] := rfl
  have hreplace : replaceChar '\\' '/' [] = [] := rfl
  unfold Path.clean
  simp only [String.toList_ofList, htrim, hnil, hreplace]
  have hstart (p : List Char) : dropStart? (p ++ ['/']) [] = none := by simp [dropStart?]
  split
  · rfl
  · rw [hstart]
    rfl

/-- A composed line with positions that can be read reports a diagnostic unless a position is zero or no file is
left, and the diagnostic is the one that it was composed of; only composed lines report one. -/
theorem ofLine?_iff_composed (here workspace : String) (line : List Char) :
    (∀ f h, Composed line f h → h.line.length ≤ Number.maxDigits → h.column.length ≤ Number.maxDigits →
      ∃ r, ofLine? here workspace line = .ok r ∧
        (r = none ↔ digitsValue h.line < 1 ∨ digitsValue h.column < 1 ∨
          Path.clean here workspace (String.ofList f) = "") ∧
        ∀ d, r = some d → Recovered here workspace f h d) ∧
      ∀ d, ofLine? here workspace line = .ok (some d) →
        ∃ f h, Composed line f h ∧ Recovered here workspace f h d := by
  constructor
  · intro f h hc hline hcolumn
    have hof : ofLine? here workspace line = ofHeader? here workspace f h := by
      rw [ofLine?, hc.split?, ← ofHeader?_bare]
    rw [hof, ofHeader?_ok hline hcolumn]
    refine ⟨_, rfl, by simp only [ite_eq_left_iff, reduceCtorEq, imp_false, not_not], fun d hd => ?_⟩
    split at hd
    · exact absurd hd nofun
    · exact Option.some.inj hd ▸ recovered_report here workspace f h
  · intro d hd
    unfold ofLine? at hd
    split at hd
    · exact absurd hd nofun
    · rename_i f h hs
      obtain ⟨rfl, hclean⟩ := ofHeader?_eq_some hd
      obtain hc | ⟨b, rfl, hb⟩ := composed_of_split? hs
      · exact ⟨f, h, hc, recovered_report here workspace f h⟩
      · exact absurd (clean_blank here workspace hb) hclean

/-- A file with parentheses, a keyword and a code in other letter cases, and a project file at the end. -/
def parenthesised : List Char :=
  "  app/(group)/page.tsx(12,5): ERROR ts2307: Cannot find module './x'. [/p/a.csproj]\r\n".toList

/-- The header of `parenthesised`. -/
def parenthesisedHeader : Header :=
  ⟨"12".toList, "5".toList, "ERROR".toList, "ts2307".toList, "Cannot find module './x'. [/p/a.csproj]".toList⟩

lemma composed_parenthesised : Composed parenthesised "app/(group)/page.tsx".toList parenthesisedHeader := by
  refine ⟨"  ".toList, "(12,5): ERROR ts2307: Cannot find module './x'. [/p/a.csproj]".toList, by decide,
    List.all_eq_true.1 (by decide), by rintro _ ⟨⟩; rfl, by decide, by decide, written_of_header? (by decide),
    fun i hi hlt => header?_eq_none.1 ?_⟩
  have hfirst : ∀ i < "app/(group)/page.tsx".toList.length, 0 < i →
      header? ("app/(group)/page.tsx".toList.drop i ++
        "(12,5): ERROR ts2307: Cannot find module './x'. [/p/a.csproj]".toList) = none := by decide
  exact hfirst i hlt hi

theorem ofLine?_parenthesised :
    Composed parenthesised "app/(group)/page.tsx".toList parenthesisedHeader ∧
      ∃ d, ofLine? "/w" "/w" parenthesised = .ok (some d) ∧
        Recovered "/w" "/w" "app/(group)/page.tsx".toList parenthesisedHeader d := by
  obtain ⟨r, hr, hnone, hsome⟩ :=
    (ofLine?_iff_composed "/w" "/w" parenthesised).1 _ _ composed_parenthesised (by decide) (by decide)
  cases r with
  | none => exact absurd (hnone.1 rfl) (by decide +kernel)
  | some d => exact ⟨composed_parenthesised, d, hr, hsome d rfl⟩

end Diagnostic

end Ratchet
