import Mathlib.Tactic
import Ratchet.Json.Reader
import Ratchet.Json.Writer
import Ratchet.Proofs.Number
import Ratchet.Proofs.Number.Spelling

/-!
What was written is read back.

A text is written character by character, and the reader takes each character's escape in one step. So
texts are read back by induction on them, and plain documents by induction on their values: the reader
answers the value that was written and stops where its writing ends. It has fuel enough as long as there is
more of it than there are characters in the writing.
-/

namespace Ratchet.Json

variable {c : Char} {s acc rest r : List Char} {fuel depth n : Nat} {b : Bool} {d e : Datum}

attribute [local simp] writeAt writeItems writeFields readText readPlain readValue readItems readFields

/-! ### Texts -/

lemma hexPadded_four (h : n < 0x10000) : Text.hexPadded 4 n =
    [(n / 4096).digitChar, (n / 256 % 16).digitChar, (n / 16 % 16).digitChar, (n % 16).digitChar] := by
  have h0 : ∀ m, m = 0 → '0' = m.digitChar := by
    rintro _ rfl
    rfl
  have hd : ∀ m, 16 ≤ m → Nat.toDigits 16 m = Nat.toDigits 16 (m / 16) ++ [(m % 16).digitChar] := fun m hm =>
    Nat.toDigits_of_base_le (by decide) hm
  have hs : ∀ m, m < 16 → Nat.toDigits 16 m = [m.digitChar] := fun m hm => Nat.toDigits_of_lt_base hm
  unfold Text.hexPadded
  rcases Nat.lt_or_ge n 16 with h1 | h1
  · rw [hs n h1, ← h0 (n / 4096) (by omega), ← h0 (n / 256 % 16) (by omega), ← h0 (n / 16 % 16) (by omega),
      show n % 16 = n by omega]
    rfl
  rw [hd n h1]
  rcases Nat.lt_or_ge (n / 16) 16 with h2 | h2
  · rw [hs _ h2, ← h0 (n / 4096) (by omega), ← h0 (n / 256 % 16) (by omega), show n / 16 % 16 = n / 16 by omega]
    rfl
  rw [hd _ h2]
  rcases Nat.lt_or_ge (n / 16 / 16) 16 with h3 | h3
  · rw [hs _ h3, ← h0 (n / 4096) (by omega), show n / 256 % 16 = n / 16 / 16 by omega]
    rfl
  rw [hd _ h3, hs _ (by omega), show n / 16 / 16 / 16 = n / 4096 by omega, show n / 16 / 16 = n / 256 by omega]
  rfl

lemma hexValue?_digitChar : ∀ k < 16, hexValue? k.digitChar = some k := by decide

/-- The four digits of a unit are read back. -/
lemma hexUnit?_hexPadded (h : n < 0x10000) : hexUnit? (Text.hexPadded 4 n ++ rest) = some (n, rest) := by
  rw [hexPadded_four h]
  simp only [List.cons_append, List.nil_append, hexUnit?, hexValue?_digitChar _ (show n / 4096 < 16 by omega),
    hexValue?_digitChar _ (show n / 256 % 16 < 16 by omega), hexValue?_digitChar _ (show n / 16 % 16 < 16 by omega),
    hexValue?_digitChar _ (show n % 16 < 16 by omega), Option.bind_eq_bind, Option.bind_some, Option.pure_def]
  rw [show (n / 4096 * 16 + n / 256 % 16) * 256 + n / 16 % 16 * 16 + n % 16 = n by omega]

/-- A unit that is no half of a surrogate pair is read as its character. -/
lemma readText_unit (h : n < 0x10000) (hn : n < 0xd800 ∨ 0xdfff < n) :
    readText (fuel + 1) acc b (unitEscape n ++ rest) = readText fuel (Char.ofNat n :: acc) b rest := by
  rw [unitEscape, List.cons_append, List.cons_append, readText]
  simp only [hexUnit?_hexPadded h]
  rw [if_neg (by simp; omega), if_neg (by simp; omega)]

/-- The two halves of a surrogate pair are read as one character. -/
lemma readText_pair {m : Nat} (hn : 0xd800 ≤ n) (hn' : n ≤ 0xdbff) (hm : 0xdc00 ≤ m) (hm' : m ≤ 0xdfff) :
    readText (fuel + 1) acc b (unitEscape n ++ unitEscape m ++ rest) =
      readText fuel (Char.ofNat (0x10000 + (n - 0xd800) * 0x400 + (m - 0xdc00)) :: acc) b rest := by
  rw [List.append_assoc, unitEscape, List.cons_append, List.cons_append, readText]
  simp only [hexUnit?_hexPadded (show n < 0x10000 by omega)]
  rw [if_pos (by simp; omega), unitEscape, List.cons_append, List.cons_append]
  simp only [hexUnit?_hexPadded (show m < 0x10000 by omega)]
  rw [if_pos (by simp; omega)]

/-- What is no escape is read as it is. -/
lemma readText_plain (h : 0x20 ≤ c.toNat) (hq : c ≠ '"') (hb : c ≠ '\\') :
    readText (fuel + 1) acc b (c :: rest) = readText fuel (c :: acc) b rest := by
  rw [readText]
  · rw [if_neg (by simp [hb]; omega)]
  · exact hq
  · exact fun _ hc _ => hb hc
  · exact fun _ _ hc _ => hb hc

/-- The code point of a character is none that a surrogate pair is made of. -/
lemma toNat_not_surrogate (c : Char) : c.toNat < 0xd800 ∨ 0xdfff < c.toNat ∧ c.toNat < 0x110000 := by
  rcases c.valid with h | ⟨h, h'⟩
  · exact .inl h
  · exact .inr ⟨h, h'⟩

/-- The reader takes the escape of a character in one step. -/
lemma readText_escapeChar : readText (fuel + 1) acc b (escapeChar c ++ rest) = readText fuel (c :: acc) b rest := by
  have hc := toNat_not_surrogate c
  unfold escapeChar
  split
  · rename_i h
    rcases (by simpa using h : c = '"' ∨ c = '\\') with rfl | rfl
    · rfl
    · rfl
  rename_i hq
  obtain ⟨hquote, hback⟩ := not_or.1 (by simpa using hq : ¬ (c = '"' ∨ c = '\\'))
  iterate 5
    split
    · rename_i h
      obtain rfl := eq_of_beq h
      rfl
  dsimp only
  split
  · rename_i hlow
    simp only [Bool.and_eq_true, decide_eq_true_eq] at hlow
    exact readText_plain hlow.1 hquote hback
  split
  · rename_i hlow
    rw [readText_unit hlow (by omega), Char.ofNat_toNat]
  · rename_i hlow
    rw [readText_pair (by omega) (by omega) (by omega) (by omega),
      show 0x10000 + (0xd800 + (c.toNat - 0x10000) / 0x400 - 0xd800) * 0x400 +
        (0xdc00 + (c.toNat - 0x10000) % 0x400 - 0xdc00) = c.toNat by omega, Char.ofNat_toNat]

lemma escapeChar_ne_nil (c : Char) : escapeChar c ≠ [] := by
  unfold escapeChar
  iterate 6
    split
    · nofun
  dsimp only
  split
  · nofun
  split
  · nofun
  · nofun

lemma length_le_flatMap_escapeChar (s : List Char) : s.length ≤ (s.flatMap escapeChar).length := by
  induction s with
  | nil => exact Nat.le_refl 0
  | cons c s ih =>
    have hc := List.length_pos_iff.2 (escapeChar_ne_nil c)
    rw [List.flatMap_cons, List.length_append, List.length_cons]
    omega

/-- A text is read back, by induction on it. -/
lemma readText_flatMap (hf : s.length < fuel) :
    readText fuel acc false (s.flatMap escapeChar ++ '"' :: rest) =
      .ok (.text (String.ofList (acc.reverse ++ s)), rest) := by
  induction s generalizing fuel acc with
  | nil =>
    obtain ⟨fuel, rfl⟩ := Nat.exists_eq_add_of_lt hf
    rw [List.append_nil]
    rfl
  | cons c s ih =>
    rcases fuel with _ | fuel
    · exact absurd hf (Nat.not_lt_zero _)
    · rw [List.flatMap_cons, List.append_assoc, readText_escapeChar, ih (Nat.lt_of_succ_lt_succ hf), List.reverse_cons,
        List.append_assoc, List.singleton_append]

/-! ### Numbers -/

/-- What may stand after a number that was written: a comma, a line break, or nothing. -/
def Stops (s : List Char) : Prop := ∀ c ∈ s.head?, c = ',' ∨ c = '\n'

lemma stops_nil : Stops [] := nofun

lemma stops_comma : Stops (',' :: s) := by
  rintro c hc
  exact .inl (Option.some.inj hc).symm

lemma stops_breakTo (level : Nat) (s : List Char) : Stops (breakTo level ++ s) := by
  rintro c hc
  exact .inr (Option.some.inj hc).symm

lemma not_isDigit_of_stops (h : Stops rest) : ∀ c ∈ rest.head?, isDigit c = false := by
  intro c hc
  rcases h c hc with rfl | rfl
  · rfl
  · rfl

lemma Stops.head_ne_point (h : Stops rest) : rest.head? ≠ some '.' := fun hc => by
  rcases h '.' hc with h | h
  · exact absurd h (by decide)
  · exact absurd h (by decide)

lemma takeWhile_digits {ds : List Char} (hd : ∀ c ∈ ds, isDigit c = true) (h : ∀ c ∈ rest.head?, isDigit c = false) :
    (ds ++ rest).takeWhile isDigit = ds ∧ (ds ++ rest).dropWhile isDigit = rest := by
  have hrest : rest.takeWhile isDigit = [] ∧ rest.dropWhile isDigit = rest := by
    cases rest with
    | nil => exact ⟨rfl, rfl⟩
    | cons c cs =>
      have hc : ¬ isDigit c = true := by simp [h c rfl]
      exact ⟨List.takeWhile_cons_of_neg hc, List.dropWhile_cons_of_neg hc⟩
  rw [List.takeWhile_append_of_pos hd, List.dropWhile_append_of_pos hd, hrest.1, hrest.2, List.append_nil]
  exact ⟨rfl, rfl⟩

lemma fraction_of_head (h : rest.head? ≠ some '.') : fraction rest = ([], rest) := by
  unfold fraction
  split
  · exact absurd rfl h
  · rfl

lemma fraction_digits {ds : List Char} (hne : ds ≠ []) (hd : ∀ c ∈ ds, isDigit c = true)
    (h : ∀ c ∈ rest.head?, isDigit c = false) : fraction ('.' :: (ds ++ rest)) = (ds, rest) := by
  obtain ⟨htake, hdrop⟩ := takeWhile_digits hd h
  rw [fraction, htake, hdrop, if_neg (by simpa using hne)]

lemma exponent?_of_stops (h : Stops rest) : exponent? rest = (none, rest) := by
  unfold exponent?
  split
  · rename_i c cs
    have hc : ¬ (c == 'e' || c == 'E') = true := by
      rcases h c rfl with rfl | rfl
      · decide
      · decide
    rw [if_neg hc]
  · rfl

lemma exponent?_exponentText (e : Int) (h : Stops rest) :
    exponent? (Number.exponentText e ++ rest) = (some e, rest) := by
  have hd : ∀ c ∈ Number.padded 2 e.natAbs, isDigit c = true := Number.isDigit_of_mem_padded
  obtain ⟨htake, hdrop⟩ := takeWhile_digits hd (not_isDigit_of_stops h)
  have hne : ¬ (Number.padded 2 e.natAbs).isEmpty = true := by
    simp [Number.padded, Nat.toDigits_ne_nil]
  rw [Number.exponentText]
  by_cases he : e < 0
  · rw [if_pos he, List.cons_append, List.cons_append, exponent?]
    dsimp only
    rw [htake, hdrop, if_pos (by decide), if_neg hne, if_pos rfl, Number.digitsValue_padded,
      show -(e.natAbs : Int) = e by omega]
  · rw [if_neg he, List.cons_append, List.cons_append, exponent?]
    dsimp only
    rw [htake, hdrop, if_pos (by decide), if_neg hne, if_neg (by decide), Number.digitsValue_padded,
      show (e.natAbs : Int) = e by omega]

/-- The reader takes the whole part of a number first, then its fraction and its exponent. -/
lemma readNumber_of_whole {negative : Bool} {whole t : List Char} (hd : ∀ c ∈ whole, isDigit c = true)
    (hne : whole ≠ []) (hlead : whole.head? = some '0' → whole = ['0']) (ht : ∀ c ∈ t.head?, isDigit c = false) :
    readNumber negative (whole ++ t) =
      if (fraction t).1.isEmpty && (exponent? (fraction t).2).1.isNone then
        if maxDigits < whole.length then .error (.longNumber whole.length)
        else .ok (.int (if negative then -(Text.digitsValue whole : Int) else Text.digitsValue whole),
          (exponent? (fraction t).2).2)
      else .ok (.float (Number.ofDecimal negative (Text.digitsValue (whole ++ (fraction t).1))
        ((exponent? (fraction t).2).1.getD 0 - (fraction t).1.length)), (exponent? (fraction t).2).2) := by
  obtain ⟨htake, hdrop⟩ := takeWhile_digits hd ht
  unfold readNumber
  split
  rename_i whole' t' hwhole
  obtain ⟨rfl, rfl⟩ : whole' = whole ∧ t' = t := by
    split at hwhole
    · rename_i r heq
      obtain ⟨c, cs, rfl⟩ := List.exists_cons_of_ne_nil hne
      obtain ⟨rfl, ht⟩ := List.cons.inj heq
      obtain rfl : cs = [] := (List.cons.inj (hlead rfl)).2
      obtain ⟨rfl, rfl⟩ := Prod.mk.inj hwhole
      exact ⟨rfl, ht.symm⟩
    · rw [htake, hdrop] at hwhole
      obtain ⟨rfl, rfl⟩ := Prod.mk.inj hwhole
      exact ⟨rfl, rfl⟩
  rw [if_neg (by simpa using hne)]

/-- A number that is not too long is read back. -/
lemma readNumber_toDigits {negative : Bool} (hs : Stops rest) (hn : (Nat.toDigits 10 n).length ≤ maxDigits) :
    readNumber negative (Nat.toDigits 10 n ++ rest) = .ok (.int (if negative then -(n : Int) else n), rest) := by
  have hlead : (Nat.toDigits 10 n).head? = some '0' → Nat.toDigits 10 n = ['0'] := by
    intro h
    rcases Nat.eq_zero_or_pos n with rfl | hn
    · rfl
    · obtain ⟨c, cs, hc, hne⟩ := Text.toDigits_head hn
      rw [hc] at h
      exact absurd (Option.some.inj h) hne
  rw [readNumber_of_whole Text.isDigit_of_mem_toDigits Nat.toDigits_ne_nil hlead (not_isDigit_of_stops hs),
    fraction_of_head hs.head_ne_point, exponent?_of_stops hs,
    if_pos (show (List.isEmpty [] && Option.isNone none) = true from rfl), if_neg (Nat.not_lt.2 hn),
    Text.digitsValue_toDigits]

/-- A decimal is read back. -/
lemma readNumber_spelling {negative : Bool} (s : Number.Spelling) (hs : Stops rest) :
    readNumber negative (s.text ++ rest) = .ok (.float (s.value negative), rest) := by
  obtain ⟨whole, frac, exp, hd, hd', hne, hlead, hmarked⟩ := s
  have htail : ∀ c ∈ (exp.elim [] Number.exponentText ++ rest).head?, isDigit c = false ∧ c ≠ '.' := by
    cases exp with
    | none =>
      intro c hc
      exact ⟨not_isDigit_of_stops hs c hc, fun h => hs.head_ne_point (h ▸ hc)⟩
    | some e =>
      intro c hc
      rw [← Option.some.inj hc]
      exact ⟨rfl, by decide⟩
  have hexp : exponent? (exp.elim [] Number.exponentText ++ rest) = (exp, rest) := by
    cases exp with
    | none => exact exponent?_of_stops hs
    | some e => exact exponent?_exponentText e hs
  have hfrac : fraction ((if frac.isEmpty then [] else '.' :: frac) ++ (exp.elim [] Number.exponentText ++ rest)) =
      (frac, exp.elim [] Number.exponentText ++ rest) := by
    by_cases hnil : frac = []
    · subst hnil
      exact fraction_of_head fun h => (htail '.' h).2 rfl
    · rw [if_neg (by simpa using hnil), List.cons_append]
      exact fraction_digits hnil hd' fun c hc => (htail c hc).1
  have hhead : ∀ c ∈ ((if frac.isEmpty then [] else '.' :: frac) ++ (exp.elim [] Number.exponentText ++ rest)).head?,
      isDigit c = false := by
    by_cases hnil : frac = []
    · subst hnil
      exact fun c hc => (htail c hc).1
    · rw [if_neg (by simpa using hnil)]
      intro c hc
      rw [← Option.some.inj hc]
      rfl
  rw [Number.Spelling.text, List.append_assoc, List.append_assoc, readNumber_of_whole hd hne hlead hhead, hfrac, hexp,
    if_neg, Number.Spelling.value]
  rcases hmarked with h | h
  · simp [h]
  · simp [Option.isSome_iff_ne_none.1 h]

lemma toList_toString_int (m : Int) : (toString m).toList =
    if m < 0 then '-' :: Nat.toDigits 10 m.natAbs else Nat.toDigits 10 m.natAbs := by
  rw [Int.toString_eq_repr, Int.repr_eq_if]
  by_cases hm : 0 ≤ m
  · rw [if_pos hm, if_neg (by omega), Nat.toList_repr, show m.toNat = m.natAbs by omega]
  · rw [if_neg hm, if_pos (by omega), String.toList_append, Nat.toList_repr, show (-m).toNat = m.natAbs by omega]
    rfl

/-! ### Documents -/

@[simp] lemma length_breakTo (level : Nat) : (breakTo level).length = 2 * level + 1 := by
  rw [breakTo, List.length_cons, List.length_replicate]

@[simp] lemma skipGap_breakTo (level : Nat) (s : List Char) : skipGap (breakTo level ++ s) = skipGap s := by
  rw [skipGap, skipGap, List.dropWhile_append_of_pos]
  intro c hc
  rcases List.mem_cons.1 hc with rfl | hc
  · rfl
  · rw [List.eq_of_mem_replicate hc]
    rfl

lemma skipGap_cons (h : isGap c = false) (s : List Char) : skipGap (c :: s) = c :: s :=
  List.dropWhile_cons_of_neg (by simp [h])

/-- What makes a value of at most `n` levels one that is read back: its writing starts with no blank and ends no
collection, it has line feeds for its line breaks, and the reader answers the value. -/
structure ReadBack (n : Nat) (d : Datum) : Prop where
  starts : ∀ level, ∃ c s, writeAt level d = c :: s ∧ isGap c = false ∧ c ≠ ']'
  feeds : ∀ level, '\r' ∉ writeAt level d
  reads : ∀ {level fuel depth rest}, Stops rest → n ≤ depth → (writeAt level d).length < fuel →
    readValue fuel depth (writeAt level d ++ rest) = .ok (d, rest)

lemma return_notMem_unitEscape (h : n < 0x10000) : '\r' ∉ unitEscape n := by
  have hall : ∀ k < 16, '\r' ≠ k.digitChar := by decide
  rw [unitEscape, hexPadded_four h]
  simp [hall (n / 4096) (by omega), hall (n / 256 % 16) (by omega), hall (n / 16 % 16) (by omega),
    hall (n % 16) (by omega)]

lemma return_notMem_escapeChar (c : Char) : '\r' ∉ escapeChar c := by
  have hc := toNat_not_surrogate c
  unfold escapeChar
  split
  · rename_i h
    rcases (by simpa using h : c = '"' ∨ c = '\\') with rfl | rfl
    · decide
    · decide
  iterate 5
    split
    · decide
  dsimp only
  split
  · rename_i h
    intro hc
    rw [← List.mem_singleton.1 hc] at h
    exact absurd h (by decide)
  split
  · rename_i hlow
    exact return_notMem_unitEscape hlow
  · rw [List.mem_append, not_or]
    exact ⟨return_notMem_unitEscape (by omega), return_notMem_unitEscape (by omega)⟩

lemma quotedText_append (s : String) (rest : List Char) :
    quotedText s ++ rest = '"' :: (s.toList.flatMap escapeChar ++ '"' :: rest) := by
  simp [quotedText]

lemma return_notMem_quotedText (s : String) : '\r' ∉ quotedText s := by
  simp [quotedText, return_notMem_escapeChar]

/-- The reader of texts gets more fuel than a text has characters. -/
lemma readText_quotedText (s : String) (rest : List Char) :
    readText ((s.toList.flatMap escapeChar ++ '"' :: rest).length + 1) [] false
      (s.toList.flatMap escapeChar ++ '"' :: rest) = .ok (.text s, rest) := by
  have hlen := length_le_flatMap_escapeChar s.toList
  rw [readText_flatMap (by rw [List.length_append]; omega), List.reverse_nil, List.nil_append, String.ofList_toList]

lemma readBack_text (n : Nat) (s : String) : ReadBack n (.text s) where
  starts _ := ⟨'"', _, rfl, rfl, by decide⟩
  feeds _ := return_notMem_quotedText s
  reads {level fuel depth rest} _ _ hf := by
    rcases fuel with _ | fuel
    · exact absurd hf (Nat.not_lt_zero _)
    · rw [writeAt, quotedText_append]
      exact readText_quotedText s rest

lemma afterWord?_of_head {word : String} (hw : word.toList.head? ≠ some c) (hne : word.toList ≠ []) :
    afterWord? word (c :: s) = none := by
  rw [afterWord?, if_neg]
  rw [List.isPrefixOf_iff_prefix]
  rintro ⟨t, ht⟩
  obtain ⟨d, ds, hd⟩ := List.exists_cons_of_ne_nil hne
  rw [hd] at ht hw
  exact hw (congrArg some (List.cons.inj ht).1)

/-- A number whose sign was read is no word. -/
lemma readPlain_digits (hc : isDigit c = true) : readPlain (c :: s) = readNumber false (c :: s) := by
  have hno : ∀ {word : String}, word.toList ≠ [] → word.toList.head?.any isDigit = false →
      afterWord? word (c :: s) = none := fun hne hw => afterWord?_of_head (fun h => by
    rw [h, Option.any_some, hc] at hw
    exact absurd hw nofun) hne
  rw [readPlain]
  · rw [hno (by decide) (by decide), hno (by decide) (by decide), hno (by decide) (by decide),
      hno (by decide) (by decide), hno (by decide) (by decide)]
  · intro t ht
    rw [(List.cons.inj ht).1] at hc
    exact absurd hc (by decide)

lemma readPlain_minus (hc : isDigit c = true) : readPlain ('-' :: c :: s) = readNumber true (c :: s) := by
  rw [readPlain, afterWord?_of_head (fun h => ?_) (by decide)]
  rw [← Option.some.inj h] at hc
  exact absurd hc (by decide)

lemma readValue_plain (hq : c ≠ '"') (hl : c ≠ '[') (hm : c ≠ '\x7b') :
    readValue (fuel + 1) depth (c :: s) = readPlain (c :: s) := by
  rw [readValue]
  · exact fun t ht => hq (List.cons.inj ht).1
  · exact fun t ht => hl (List.cons.inj ht).1
  · exact fun t ht => hm (List.cons.inj ht).1

/-- A number is read back if its digits are. -/
lemma readBack_number (n : Nat) (negative : Bool) {t : List Char}
    (hw : ∀ level, writeAt level d = if negative then '-' :: t else t) (hne : t ≠ [])
    (hhead : ∀ c ∈ t.head?, isDigit c = true) (hfeeds : '\r' ∉ t)
    (hreads : ∀ rest, Stops rest → readNumber negative (t ++ rest) = .ok (d, rest)) : ReadBack n d := by
  obtain ⟨c, cs, rfl⟩ := List.exists_cons_of_ne_nil hne
  have hc : isDigit c = true := hhead c rfl
  have hother : ∀ {d}, isDigit d = false → c ≠ d := fun hd h => by
    rw [h, hd] at hc
    exact absurd hc nofun
  refine ⟨fun level => ?_, fun level hmem => ?_, fun {level fuel depth rest} hs _ hf => ?_⟩
  · rw [hw]
    split
    · exact ⟨'-', _, rfl, rfl, by decide⟩
    · refine ⟨c, cs, rfl, ?_, hother rfl⟩
      simp [isGap, hother (d := ' ') rfl, hother (d := '\t') rfl, hother (d := '\n') rfl, hother (d := '\r') rfl]
  · rw [hw] at hmem
    split at hmem
    · exact (List.mem_cons.1 hmem).elim (by decide) hfeeds
    · exact hfeeds hmem
  · rcases fuel with _ | fuel
    · exact absurd hf (Nat.not_lt_zero _)
    rw [hw, ← hreads rest hs]
    cases negative
    · rw [if_neg (by decide), List.cons_append, readValue_plain (hother rfl) (hother rfl) (hother rfl),
        readPlain_digits hc]
    · rw [if_pos rfl, List.cons_append, List.cons_append, readValue_plain (by decide) (by decide) (by decide),
        readPlain_minus hc]

lemma readBack_int (n : Nat) {m : Int} (hm : (Nat.toDigits 10 m.natAbs).length ≤ maxDigits) : ReadBack n (.int m) := by
  have hd : ∀ c ∈ Nat.toDigits 10 m.natAbs, isDigit c = true := Text.isDigit_of_mem_toDigits
  refine readBack_number n (decide (m < 0)) (fun level => ?_) (Nat.toDigits_ne_nil (n := m.natAbs) (b := 10))
    (fun c hc => hd c (List.mem_of_mem_head? hc)) (fun hmem => absurd (hd _ hmem) (by decide)) fun rest hs => ?_
  · rw [writeAt, toList_toString_int]
    simp only [decide_eq_true_eq]
  · rw [readNumber_toDigits hs hm]
    split
    · rename_i hneg
      rw [show -(m.natAbs : Int) = m by simp at hneg; omega]
    · rename_i hpos
      rw [show (m.natAbs : Int) = m by simp at hpos; omega]

/-- A finite number is read back. -/
lemma readBack_float (n : Nat) {x : Float} {negative : Bool} {m : Nat} {q : Int}
    (h : Number.parts x = .finite negative m q) : ReadBack n (.float x) := by
  obtain ⟨s, htext, hvalue⟩ := Number.shortest_spelled h
  refine readBack_number n negative (fun level => ?_) s.text_ne_nil s.isDigit_of_head s.return_notMem_text
    fun rest hs => ?_
  · rw [writeAt, floatText, h]
    exact htext
  · rw [readNumber_spelling s hs, hvalue]

lemma afterWord?_append (word : String) (s : List Char) : afterWord? word (word.toList ++ s) = some s := by
  rw [afterWord?, if_pos (List.isPrefixOf_iff_prefix.2 (List.prefix_append _ _)), ← String.length_toList, List.drop_left]

lemma readPlain_null : readPlain ("null".toList ++ rest) = .ok (.null, rest) := by
  rw [readPlain, afterWord?_append]
  exact fun t ht => absurd (List.cons.inj ht).1 (by decide)

lemma readPlain_bool (b : Bool) :
    readPlain ((if b then "true" else "false").toList ++ rest) = .ok (.bool b, rest) := by
  have hno : ∀ {word : String}, word.toList ≠ [] → word.toList.head? ≠ some 't' → word.toList.head? ≠ some 'f' →
      afterWord? word ((if b then "true" else "false").toList ++ rest) = none := fun hne ht hf => by
    cases b
    · exact afterWord?_of_head hf hne
    · exact afterWord?_of_head ht hne
  rw [readPlain]
  · rw [hno (by decide) (by decide) (by decide)]
    cases b
    · have htrue : afterWord? "true" ("false".toList ++ rest) = none := afterWord?_of_head (by decide) (by decide)
      rw [if_neg (by decide), htrue, afterWord?_append]
    · rw [if_pos rfl, afterWord?_append]
  · intro t ht
    cases b
    · exact absurd (List.cons.inj ht).1 (by decide)
    · exact absurd (List.cons.inj ht).1 (by decide)

/-- A word is read back. -/
lemma readBack_word (n : Nat) {word : String} {c : Char} {s : List Char} (hw : ∀ level, writeAt level d = word.toList)
    (hc : word.toList = c :: s) (hletter : c.isAlpha = true) (hfeeds : '\r' ∉ word.toList)
    (hreads : ∀ rest, readPlain (word.toList ++ rest) = .ok (d, rest)) : ReadBack n d := by
  have hne : ∀ {d : Char}, d.isAlpha = false → c ≠ d := fun hd h => by
    rw [h, hd] at hletter
    exact absurd hletter nofun
  refine ⟨fun level => ⟨c, s, by rw [hw, hc], ?_, hne rfl⟩, fun level => by rwa [hw],
    fun {level fuel depth rest} _ _ hf => ?_⟩
  · simp [isGap, hne (d := ' ') rfl, hne (d := '\t') rfl, hne (d := '\n') rfl, hne (d := '\r') rfl]
  · rcases fuel with _ | fuel
    · exact absurd hf (Nat.not_lt_zero _)
    rw [hw, ← hreads, hc]
    exact readValue_plain (hne rfl) (hne rfl) (hne rfl)

lemma readBack_null (n : Nat) : ReadBack n .null :=
  readBack_word n (fun level => by rw [writeAt]) rfl rfl (by decide) fun _ => readPlain_null

lemma readBack_bool (n : Nat) (b : Bool) : ReadBack n (.bool b) := by
  cases b
  · exact readBack_word n (fun level => by rw [writeAt, if_neg (by decide)]) rfl rfl (by decide)
      fun _ => readPlain_bool false
  · exact readBack_word n (fun level => by rw [writeAt, if_pos rfl]) rfl rfl (by decide)
      fun _ => readPlain_bool true

lemma ReadBack.skipGap (h : ReadBack n d) (level : Nat) (s : List Char) :
    skipGap (writeAt level d ++ s) = writeAt level d ++ s := by
  obtain ⟨c, t, hc, hgap, -⟩ := h.starts level
  rw [hc, List.cons_append, skipGap_cons hgap]

lemma writeItems_append (level : Nat) (x : Datum) (xs : List Datum) (s : List Char) :
    writeItems level (x :: xs) ++ s = ',' :: (breakTo level ++ (writeAt level x ++ (writeItems level xs ++ s))) := by
  simp

/-- The items of a list are read back, by induction on those that follow the first one. -/
lemma readItems_writeItems {level level' : Nat} {x : Datum} {xs : List Datum} (hx : ReadBack n x)
    (hxs : ∀ y ∈ xs, ReadBack n y) (hd : n ≤ depth)
    (hf : (writeAt level x).length + (writeItems level xs).length + 1 < fuel) :
    readItems fuel depth (writeAt level x ++ (writeItems level xs ++ (breakTo level' ++ ']' :: rest))) =
      .ok (x :: xs, rest) := by
  induction xs generalizing x fuel with
  | nil =>
    rcases fuel with _ | fuel
    · exact absurd hf (Nat.not_lt_zero _)
    rw [readItems, writeItems, List.nil_append, hx.reads (stops_breakTo level' _) hd (by omega)]
    simp only [bind, Except.bind]
    rw [skipGap_breakTo, skipGap_cons (show isGap ']' = false from rfl)]
    rfl
  | cons y xs ih =>
    have hy := hxs y List.mem_cons_self
    have hlen : (writeItems level (y :: xs)).length =
        (writeAt level y).length + (writeItems level xs).length + (2 * level + 2) := by
      rw [writeItems, List.length_append, List.length_append, List.length_cons, length_breakTo]
      omega
    rcases fuel with _ | fuel
    · exact absurd hf (Nat.not_lt_zero _)
    rw [readItems, writeItems_append, hx.reads stops_comma hd (by omega)]
    simp only [bind, Except.bind]
    rw [skipGap_cons (show isGap ',' = false from rfl)]
    have hrest := @ih fuel y hy (fun y hm => hxs y (List.mem_cons_of_mem _ hm)) (by omega)
    simp only [skipGap_breakTo, hy.skipGap, hrest]

lemma return_notMem_breakTo (level : Nat) : '\r' ∉ breakTo level := by
  simp [breakTo]

lemma return_notMem_writeItems {level : Nat} {xs : List Datum} (h : ∀ x ∈ xs, ReadBack n x) :
    '\r' ∉ writeItems level xs := by
  induction xs with
  | nil => exact List.not_mem_nil
  | cons x xs ih =>
    rw [← List.append_nil (writeItems level (x :: xs)), writeItems_append]
    simp [return_notMem_breakTo, (h x List.mem_cons_self).feeds level, ih fun y hy => h y (List.mem_cons_of_mem x hy)]

lemma writeAt_list (level : Nat) (x : Datum) (xs : List Datum) (s : List Char) :
    writeAt level (.list (x :: xs)) ++ s = '[' :: (breakTo (level + 1) ++ (writeAt (level + 1) x ++
      (writeItems (level + 1) xs ++ (breakTo level ++ ']' :: s)))) := by
  simp

lemma readBack_list {xs : List Datum} (h : ∀ x ∈ xs, ReadBack n x) : ReadBack (n + 1) (.list xs) := by
  rcases xs with _ | ⟨x, xs⟩
  · refine ⟨fun _ => ⟨'[', _, rfl, rfl, by decide⟩, fun level => ?_, fun {level fuel depth rest} _ hd hf => ?_⟩
    · rw [writeAt]
      decide
    · obtain ⟨fuel, rfl⟩ := Nat.exists_eq_add_of_lt hf
      obtain ⟨depth, rfl⟩ := Nat.exists_eq_add_of_le' (Nat.le_of_add_left_le hd)
      rw [writeAt, List.cons_append, List.cons_append, List.nil_append, readValue]
      dsimp only
      rw [skipGap_cons (show isGap ']' = false from rfl)]
      rfl
  · have hx := h x List.mem_cons_self
    have hxs : ∀ y ∈ xs, ReadBack n y := fun y hy => h y (List.mem_cons_of_mem x hy)
    refine ⟨fun _ => ⟨'[', _, rfl, rfl, by decide⟩, fun level => ?_, fun {level fuel depth rest} _ hd hf => ?_⟩
    · rw [← List.append_nil (writeAt level _), writeAt_list]
      simp [return_notMem_breakTo, hx.feeds (level + 1), return_notMem_writeItems hxs]
    · rw [← List.append_nil (writeAt level _), writeAt_list] at hf
      simp only [List.length_cons, List.length_append, length_breakTo, List.length_nil] at hf
      rcases fuel with _ | fuel
      · exact absurd hf (Nat.not_lt_zero _)
      rcases depth with _ | depth
      · exact absurd hd (Nat.not_succ_le_zero n)
      rw [writeAt_list, readValue]
      dsimp only
      rw [skipGap_breakTo, hx.skipGap]
      have hitems : readItems fuel depth (writeAt (level + 1) x ++ (writeItems (level + 1) xs ++
          (breakTo level ++ ']' :: rest))) = .ok (x :: xs, rest) :=
        readItems_writeItems hx hxs (Nat.le_of_succ_le_succ hd) (by omega)
      obtain ⟨c, t, hc, -, hne⟩ := hx.starts (level + 1)
      rw [hc, List.cons_append] at hitems ⊢
      split
      · rename_i heq
        exact absurd (List.cons.inj heq).1 hne
      · rw [hitems]
        rfl

/-- The entries of a mapping whose keys are texts. -/
abbrev entries (fields : List (String × Datum)) : List (Datum × Datum) := fields.map fun (k, v) => (.text k, v)

lemma sameKey_text (j k : String) : Datum.sameKey (.text j) (.text k) = (j == k) := rfl

lemma putEntry_new {es : List (Datum × Datum)} {k : String} (h : ∀ x ∈ es, Datum.sameKey x.1 (.text k) = false)
    (v : Datum) : Datum.putEntry (.text k) v es = es ++ [(.text k, v)] := by
  induction es with
  | nil => rfl
  | cons x es ih =>
    rw [Datum.putEntry, if_neg (by simp [h x List.mem_cons_self]), ih fun y hy => h y (List.mem_cons_of_mem x hy),
      List.cons_append]

lemma entries_new {fields : List (String × Datum)} {k : String} (h : k ∉ fields.map (·.1)) :
    ∀ x ∈ entries fields, Datum.sameKey x.1 (.text k) = false := by
  intro x hx
  obtain ⟨⟨j, v⟩, hj, rfl⟩ := List.mem_map.1 hx
  exact beq_false_of_ne fun heq => h (heq ▸ List.mem_map_of_mem hj)

lemma keyText_text (k : String) : keyText (.text k) = quotedText k := rfl

lemma writeFields_append (level : Nat) (k : String) (v : Datum) (fields : List (String × Datum)) (s : List Char) :
    writeFields level (entries ((k, v) :: fields)) ++ s = ',' :: (breakTo level ++ (quotedText k ++
      ':' :: ' ' :: (writeAt level v ++ (writeFields level (entries fields) ++ s)))) := by
  simp [keyText_text]

/-- A field whose key is new comes last. -/
lemma putEntry_done {k : String} {v : Datum} {done fields : List (String × Datum)}
    (hk : ((done ++ (k, v) :: fields).map (·.1)).Nodup) :
    Datum.putEntry (.text k) v (entries done) = entries (done ++ [(k, v)]) := by
  rw [putEntry_new (entries_new ?_), entries, entries, List.map_append]
  · rfl
  · rw [List.map_append, List.map_cons, List.nodup_append] at hk
    exact fun hmem => hk.2.2 k hmem k List.mem_cons_self rfl

/-- One field is read back, and the reader goes on after it. -/
lemma readFields_field {level : Nat} {k : String} {v : Datum} {done : List (Datum × Datum)} (hv : ReadBack n v)
    (hs : Stops s) (hd : n ≤ depth) (hf : (writeAt level v).length < fuel) :
    readFields (fuel + 1) depth done (quotedText k ++ ':' :: ' ' :: (writeAt level v ++ s)) =
      match skipGap s with
      | '\x7d' :: t => .ok (Datum.putEntry (.text k) v done, t)
      | ',' :: t => readFields fuel depth (Datum.putEntry (.text k) v done) (skipGap t)
      | _ => .error .malformed := by
  have hread : readValue fuel depth (skipGap (' ' :: (writeAt level v ++ s))) = .ok (v, s) := by
    rw [show ∀ u, skipGap (' ' :: u) = skipGap u from fun _ => rfl, hv.skipGap, hv.reads hs hd hf]
  rw [quotedText_append, readFields, readText_quotedText]
  simp only [bind, Except.bind]
  rw [skipGap_cons (show isGap ':' = false from rfl)]
  split
  · rename_i heq
    obtain rfl := (List.cons.inj heq).2
    generalize readValue fuel depth (skipGap (' ' :: _)) = r at hread ⊢
    subst hread
    rfl
  · rename_i hne
    exact absurd rfl (hne _)

/-- The fields of a mapping are read back, by induction on those that follow the first one. -/
lemma readFields_writeFields {level level' : Nat} {k : String} {v : Datum} {fields done : List (String × Datum)}
    (hk : ((done ++ (k, v) :: fields).map (·.1)).Nodup) (hv : ReadBack n v) (hv' : ∀ x ∈ fields, ReadBack n x.2)
    (hd : n ≤ depth) (hf : (writeAt level v).length + (writeFields level (entries fields)).length + 1 < fuel) :
    readFields fuel depth (entries done) (quotedText k ++ ':' :: ' ' :: (writeAt level v ++
      (writeFields level (entries fields) ++ (breakTo level' ++ '\x7d' :: rest)))) =
        .ok (entries (done ++ (k, v) :: fields), rest) := by
  induction fields generalizing k v done fuel with
  | nil =>
    rcases fuel with _ | fuel
    · exact absurd hf (Nat.not_lt_zero _)
    rw [show entries [] = [] from rfl, writeFields, List.nil_append,
      readFields_field hv (stops_breakTo level' _) hd (by omega), skipGap_breakTo,
      skipGap_cons (show isGap '\x7d' = false from rfl), putEntry_done hk]
    rfl
  | cons x fields ih =>
    obtain ⟨j, u⟩ := x
    have hlen : (writeAt level u).length + (writeFields level (entries fields)).length + 1 ≤
        (writeFields level (entries ((j, u) :: fields))).length := by
      rw [← List.append_nil (writeFields level (entries ((j, u) :: fields))), writeFields_append]
      simp only [List.length_cons, List.length_append, List.length_nil]
      omega
    rcases fuel with _ | fuel
    · exact absurd hf (Nat.not_lt_zero _)
    rw [writeFields_append, readFields_field hv stops_comma hd (by omega),
      skipGap_cons (show isGap ',' = false from rfl), putEntry_done hk]
    have hsplit : (done ++ [(k, v)]) ++ (j, u) :: fields = done ++ (k, v) :: (j, u) :: fields := by simp
    rw [← hsplit] at hk ⊢
    have hrest := @ih fuel j u (done ++ [(k, v)]) hk (hv' _ List.mem_cons_self)
      (fun y hy => hv' y (List.mem_cons_of_mem _ hy)) (by omega)
    rw [← hrest, quotedText_append, ← skipGap_cons (show isGap '"' = false from rfl), ← quotedText_append]
    simp only [skipGap_breakTo]
    rfl

lemma return_notMem_writeFields {level : Nat} {fields : List (String × Datum)} (h : ∀ x ∈ fields, ReadBack n x.2) :
    '\r' ∉ writeFields level (entries fields) := by
  induction fields with
  | nil => exact List.not_mem_nil
  | cons x fields ih =>
    obtain ⟨k, v⟩ := x
    rw [← List.append_nil (writeFields level _), writeFields_append]
    simp [return_notMem_breakTo, return_notMem_quotedText, (h _ List.mem_cons_self).feeds level,
      ih fun y hy => h y (List.mem_cons_of_mem _ hy)]

lemma writeAt_ofFields (level : Nat) (k : String) (v : Datum) (fields : List (String × Datum)) (s : List Char) :
    writeAt level (Datum.ofFields ((k, v) :: fields)) ++ s = '\x7b' :: (breakTo (level + 1) ++ (quotedText k ++
      ':' :: ' ' :: (writeAt (level + 1) v ++ (writeFields (level + 1) (entries fields) ++
        (breakTo level ++ '\x7d' :: s))))) := by
  simp [Datum.ofFields, keyText_text]

lemma readBack_ofFields {fields : List (String × Datum)} (hk : (fields.map (·.1)).Nodup)
    (h : ∀ x ∈ fields, ReadBack n x.2) : ReadBack (n + 1) (Datum.ofFields fields) := by
  rcases fields with _ | ⟨⟨k, v⟩, fields⟩
  · refine ⟨fun _ => ⟨'\x7b', _, rfl, rfl, by decide⟩, fun level => ?_, fun {level fuel depth rest} _ hd hf => ?_⟩
    · rw [Datum.ofFields, List.map_nil, writeAt]
      decide
    · obtain ⟨fuel, rfl⟩ := Nat.exists_eq_add_of_lt hf
      obtain ⟨depth, rfl⟩ := Nat.exists_eq_add_of_le' (Nat.le_of_add_left_le hd)
      rw [Datum.ofFields, List.map_nil, writeAt, List.cons_append, List.cons_append, List.nil_append, readValue]
      dsimp only
      rw [skipGap_cons (show isGap '\x7d' = false from rfl)]
      rfl
  · have hv := h _ List.mem_cons_self
    have hv' : ∀ y ∈ fields, ReadBack n y.2 := fun y hy => h y (List.mem_cons_of_mem _ hy)
    refine ⟨fun _ => ⟨'\x7b', _, rfl, rfl, by decide⟩, fun level => ?_, fun {level fuel depth rest} _ hd hf => ?_⟩
    · rw [← List.append_nil (writeAt level _), writeAt_ofFields]
      simp [return_notMem_breakTo, return_notMem_quotedText, hv.feeds (level + 1), return_notMem_writeFields hv']
    · rw [← List.append_nil (writeAt level _), writeAt_ofFields] at hf
      simp only [List.length_cons, List.length_append, length_breakTo, List.length_nil] at hf
      rcases fuel with _ | fuel
      · exact absurd hf (Nat.not_lt_zero _)
      rcases depth with _ | depth
      · exact absurd hd (Nat.not_succ_le_zero n)
      rw [writeAt_ofFields, readValue]
      dsimp only
      rw [skipGap_breakTo, quotedText_append, skipGap_cons (show isGap '"' = false from rfl)]
      have hfields : readFields fuel depth (entries []) (quotedText k ++ ':' :: ' ' :: (writeAt (level + 1) v ++
          (writeFields (level + 1) (entries fields) ++ (breakTo level ++ '\x7d' :: rest)))) =
            .ok (entries ([] ++ (k, v) :: fields), rest) :=
        readFields_writeFields hk hv hv' (Nat.le_of_succ_le_succ hd) (by omega)
      rw [quotedText_append] at hfields
      split
      · rename_i heq
        exact absurd (List.cons.inj heq).1 (by decide)
      · rw [show ([] : List (Datum × Datum)) = entries [] from rfl, hfields]
        rfl

/-- **What is written is read back.** A document of texts, numbers, words, lists and mappings that nests at most
`maxDepth` levels deep is read as it was written. -/
theorem read_write (h : ReadBack n d) (hn : n ≤ maxDepth) : read (write d) = .ok d := by
  have hread : readValue (2 * (writeAt 0 d).length + 2) maxDepth (writeAt 0 d ++ []) = .ok (d, []) :=
    h.reads stops_nil hn (by omega)
  have hskip := h.skipGap 0 []
  rw [List.append_nil] at hread hskip
  rw [read, write, String.toList_ofList, hskip, hread]
  rfl

end Ratchet.Json
