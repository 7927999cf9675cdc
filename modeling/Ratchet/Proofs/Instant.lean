import Mathlib.Tactic
import Ratchet.Instant.Reader
import Ratchet.Proofs.Number
import Ratchet.Schema

/-!
Instants written and read.

The calendar gives every day a date and every date its day back, so an instant of the calendar in universal time
is read from the text that it is written as.
-/

namespace Ratchet.Instant

/-! ### The calendar -/

/-- A day of an era of four centuries, counted in centuries, in cycles of four years, in years and in days of the
year that begins in March. -/
structure InEra (doe c q t doy : Int) : Prop where
  sum : doe = 36524 * c + 1461 * q + 365 * t + doy
  c_nonneg : 0 ≤ c
  c_le : c ≤ 3
  q_nonneg : 0 ≤ q
  q_le : q ≤ 24
  t_nonneg : 0 ≤ t
  t_le : t ≤ 3
  doy_nonneg : 0 ≤ doy
  doy_le : doy ≤ 365
  leap : doy = 365 → t = 3 ∧ (q = 24 → c = 3)

lemma exists_inEra {doe : Int} (h0 : 0 ≤ doe) (h1 : doe ≤ 146096) : ∃ c q t doy, InEra doe c q t doy := by
  obtain ⟨c, hc⟩ : ∃ c, c = min (doe / 36524) 3 := ⟨_, rfl⟩
  obtain ⟨d₁, hd₁⟩ : ∃ d, d = doe - 36524 * c := ⟨_, rfl⟩
  have hd : 0 ≤ d₁ ∧ d₁ ≤ 36524 ∧ (d₁ = 36524 → c = 3) := by omega
  obtain ⟨q, hq⟩ : ∃ q, q = d₁ / 1461 := ⟨_, rfl⟩
  obtain ⟨d₂, hd₂⟩ : ∃ d, d = d₁ - 1461 * q := ⟨_, rfl⟩
  obtain ⟨t, ht⟩ : ∃ t, t = min (d₂ / 365) 3 := ⟨_, rfl⟩
  exact ⟨c, q, t, d₂ - 365 * t, by omega, by omega, by omega, by omega, by omega, by omega, by omega, by omega,
    by omega, by omega⟩

lemma InEra.year {doe c q t doy : Int} (h : InEra doe c q t doy) :
    (doe - doe / 1460 + doe / 36524 - doe / 146096) / 365 = 100 * c + 4 * q + t := by
  obtain ⟨sum, hc, hc', hq, hq', ht, ht', hd, hd', leap⟩ := h
  have hr : 0 ≤ 1461 * q + 365 * t + doy ∧ 1461 * q + 365 * t + doy ≤ 36524 ∧
      (1461 * q + 365 * t + doy = 36524 → c = 3) := by omega
  obtain ⟨e, he⟩ : ∃ e, e = (24 * c + q + 365 * t + doy) / 1460 := ⟨_, rfl⟩
  have he' : 0 ≤ e ∧ e ≤ 1 ∧ (e = 1 → t = 3 ∧ 1 ≤ doy) := by omega
  have hcentury : doe / 36524 - doe / 146096 = c := by
    clear leap he he' hd hd' ht ht' hq hq'
    obtain rfl | rfl | rfl | rfl : c = 0 ∨ c = 1 ∨ c = 2 ∨ c = 3 := by omega
    all_goals omega
  have hfour : doe / 1460 = 25 * c + q + e := by
    clear hcentury hr leap he' 
    omega
  have hrest : 0 ≤ 365 * t + doy - e - 365 * t ∧ 365 * t + doy - e - 365 * t < 365 := by omega
  clear leap hr he he' hq hq' hc hc' ht ht'
  omega

/-- The month and the day of a day of the year that begins in March. -/
structure InYear (doy mp m d : Int) : Prop where
  mp_eq : mp = (5 * doy + 2) / 153
  m_eq : m = if mp < 10 then mp + 3 else mp - 9
  d_eq : d = doy - (153 * mp + 2) / 5 + 1
  month : 1 ≤ m ∧ m ≤ 12
  first : 1 ≤ d
  last : (m = 2 → d ≤ 28 ∨ d = 29 ∧ doy = 365) ∧ (m = 4 ∨ m = 6 ∨ m = 9 ∨ m = 11 → d ≤ 30) ∧ d ≤ 31
  back : mp = if m > 2 then m - 3 else m + 9
  spring : m ≤ 2 ↔ 306 ≤ doy

lemma exists_inYear {doy : Int} (h0 : 0 ≤ doy) (h1 : doy ≤ 365) : ∃ mp m d, InYear doy mp m d := by
  obtain ⟨mp, hmp⟩ : ∃ mp, mp = (5 * doy + 2) / 153 := ⟨_, rfl⟩
  obtain ⟨m, hm⟩ : ∃ m, m = if mp < 10 then mp + 3 else mp - 9 := ⟨_, rfl⟩
  obtain ⟨d, hd⟩ : ∃ d, d = doy - (153 * mp + 2) / 5 + 1 := ⟨_, rfl⟩
  have hmonth : 1 ≤ m ∧ m ≤ 12 := by
    split at hm <;> omega
  have hback : mp = if m > 2 then m - 3 else m + 9 := by
    split at hm <;> split <;> omega
  have hspring : m ≤ 2 ↔ 306 ≤ doy := by
    split at hm <;> omega
  refine ⟨mp, m, d, hmp, hm, hd, hmonth, by omega, ⟨fun h => ?_, fun h => ?_, by omega⟩, hback, hspring⟩
  · rw [h] at hback
    simp at hback
    omega
  · rcases h with rfl | rfl | rfl | rfl <;> simp at hback <;> omega

lemma hasDay_of {y m d : Int} (hm : 1 ≤ m ∧ m ≤ 12) (hd : 1 ≤ d) (hshort : m = 2 → d ≤ 28 ∨ d = 29 ∧ isLeap y = true)
    (hmiddle : m = 4 ∨ m = 6 ∨ m = 9 ∨ m = 11 → d ≤ 30) (hlong : d ≤ 31) : hasDay y m d = true := by
  have hlast : d ≤ monthDays y m := by
    unfold monthDays
    split
    · rename_i h
      rcases hshort (beq_iff_eq.1 h) with h | ⟨h, hl⟩
      · split <;> omega
      · rw [if_pos hl]
        omega
    · split
      · rename_i h
        exact hmiddle (by simpa [or_assoc] using h)
      · exact hlong
  simp [hasDay, hm, hd, hlast]

/-- Every day has a date, and the date is that of the day. The years of the calendar have four digits. -/
lemma dateOfDays_spec (n : Int) : ∃ y m d, dateOfDays n = (y, m, d) ∧ hasDay y m d = true ∧ daysOfDate y m d = n ∧
    (-719162 ≤ n → n ≤ 2932896 → 1 ≤ y ∧ y ≤ 9999) := by
  obtain ⟨era, hera⟩ : ∃ era, era = Int.fdiv (n + 719468) 146097 := ⟨_, rfl⟩
  obtain ⟨doe, hdoe⟩ : ∃ doe, doe = n + 719468 - era * 146097 := ⟨_, rfl⟩
  have hbounds : 0 ≤ doe ∧ doe ≤ 146096 := by
    rw [Int.fdiv_eq_ediv_of_nonneg _ (by decide)] at hera
    omega
  obtain ⟨c, q, t, doy, hin⟩ := exists_inEra hbounds.1 hbounds.2
  obtain ⟨mp, m, d, hy⟩ := exists_inYear hin.doy_nonneg hin.doy_le
  have hdiv : (100 * c + 4 * q + t) / 4 = 25 * c + q ∧ (100 * c + 4 * q + t) / 100 = c := by
    obtain ⟨-, hc, hc', hq, hq', ht, ht', -, -, -⟩ := hin
    omega
  have hdoy : doe - (365 * (100 * c + 4 * q + t) + (25 * c + q) - c) = doy := by
    have := hin.sum
    omega
  refine ⟨100 * c + 4 * q + t + era * 400 + (if m ≤ 2 then 1 else 0), m, d, ?_, ?_, ?_, ?_⟩
  · simp only [dateOfDays, ← hera, ← hdoe, hin.year, hdiv.1, hdiv.2, hdoy, ← hy.mp_eq, ← hy.m_eq, ← hy.d_eq]
  · refine hasDay_of hy.month hy.first (fun hm => (hy.last.1 hm).imp_right fun ⟨hd, hdoy⟩ => ⟨hd, ?_⟩) hy.last.2.1
      hy.last.2.2
    obtain ⟨rfl, hcentury⟩ := hin.leap hdoy
    have hq := hin.q_nonneg
    have hq' := hin.q_le
    simp only [isLeap, if_pos (show m ≤ 2 by omega), Bool.and_eq_true, Bool.or_eq_true, beq_iff_eq, bne_iff_ne]
    clear hy hdoe hdoy hdiv hin hbounds hera
    omega
  · have hyear : 100 * c + 4 * q + t + era * 400 + (if m ≤ 2 then 1 else 0) - (if m ≤ 2 then 1 else 0) =
      100 * c + 4 * q + t + era * 400 := by omega
    have hera' : Int.fdiv (100 * c + 4 * q + t + era * 400) 400 = era := by
      obtain ⟨-, hc, hc', hq, hq', ht, ht', -, -, -⟩ := hin
      rw [Int.fdiv_eq_ediv_of_nonneg _ (by decide)]
      omega
    have hm : (if m ≤ 2 then 100 * c + 4 * q + t + era * 400 + (if m ≤ 2 then 1 else 0) - 1
        else 100 * c + 4 * q + t + era * 400 + (if m ≤ 2 then 1 else 0)) = 100 * c + 4 * q + t + era * 400 := by
      split <;> omega
    simp only [daysOfDate, hm, hera', ← hy.back]
    rw [show 100 * c + 4 * q + t + era * 400 - era * 400 = 100 * c + 4 * q + t by omega, hdiv.1, hdiv.2]
    have := hin.sum
    have := hy.d_eq
    omega
  · intro h1 h2
    have hs := hy.spring
    obtain ⟨hsum, hc, hc', hq, hq', ht, ht', hd, hd', -⟩ := hin
    clear hy hera hdiv hdoy
    split <;> omega

/-! ### Texts -/

variable {rest : List Char} {width n : Nat}

/-- A number that was written in some places is read from them. -/
lemma digits?_padded (hw : 0 < width) (h : n < 10 ^ width) :
    digits? width (Number.padded width n ++ rest) = some ((n : Int), rest) := by
  have hlen := Number.length_padded hw h
  have htake : (Number.padded width n ++ rest).take width = Number.padded width n := List.take_left' hlen
  have hdrop : (Number.padded width n ++ rest).drop width = rest := List.drop_left' hlen
  have hall : (Number.padded width n).all Char.isDigit = true := List.all_eq_true.2 Number.isDigit_of_mem_padded
  simp only [digits?, htake, hdrop, hall, hlen, Number.digitsValue_padded, beq_self_eq_true, Bool.and_self, if_true]

lemma digits?_field {x : Int} (hw : 0 < width) (h0 : 0 ≤ x) (h : x < 10 ^ width) :
    digits? width (field width x ++ rest) = some (x, rest) := by
  have hx : x.toNat < 10 ^ width := by
    zify
    rwa [Int.toNat_of_nonneg h0]
  rw [field, digits?_padded hw hx, Int.toNat_of_nonneg h0]

/-- The parts of a day. -/
lemma day_parts {x : Int} (h0 : 0 ≤ x) (h : x < day) :
    (0 ≤ x / (3600 * second) ∧ x / (3600 * second) < 24) ∧
      (0 ≤ x / (60 * second) % 60 ∧ x / (60 * second) % 60 < 60) ∧
      (0 ≤ x / second % 60 ∧ x / second % 60 < 60) ∧ (0 ≤ x % second ∧ x % second < 1000000) ∧
      (x / (3600 * second) * 3600 + x / (60 * second) % 60 * 60) * second +
        (x / second % 60 * second + x % second) = x := by
  simp only [second, day] at h ⊢
  refine ⟨by omega, by omega, by omega, by omega, by omega⟩

/-- The microseconds are read from the six digits that they are written with. -/
lemma microsOf_field {us : Int} (h0 : 0 ≤ us) (h : us < 1000000) : microsOf (field 6 us) = us := by
  have hlen : (field 6 us).length = 6 := Number.length_padded (by decide) (by omega)
  rw [microsOf, List.take_left' hlen, field, Number.digitsValue_padded, Int.toNat_of_nonneg h0]

/-- Seconds and a fraction are read as they are written, up to the mark of universal time. -/
lemma secondsOf?_field {s us : Int} (hs0 : 0 ≤ s) (hs : s < 60) (h0 : 0 ≤ us) (h : us < 1000000) :
    secondsOf? (':' :: (field 2 s ++ ((if us == 0 then [] else '.' :: field 6 us) ++ ['Z']))) =
      some (s * second + us, ['Z']) := by
  unfold secondsOf?
  simp only [digits?_field (show 0 < 2 by decide) hs0 (show s < 10 ^ 2 by omega), Option.bind_eq_bind, Option.bind_some,
    guard, if_pos hs]
  by_cases hus : us = 0
  · subst hus
    simp
  · have hdigits : ∀ c ∈ field 6 us, c.isDigit = true := Number.isDigit_of_mem_padded
    have hne : field 6 us ≠ [] := List.ne_nil_of_length_pos
      (by rw [field, Number.length_padded (by decide) (show us.toNat < 10 ^ 6 by omega)]; decide)
    have htake : (field 6 us ++ ['Z']).takeWhile Char.isDigit = field 6 us := by
      rw [List.takeWhile_append_of_pos hdigits]
      simp
    have hdrop : (field 6 us ++ ['Z']).dropWhile Char.isDigit = ['Z'] := by
      rw [List.dropWhile_append_of_pos hdigits]
      rfl
    simp only [beq_iff_eq, hus, if_false, List.cons_append, htake, hdrop, List.isEmpty_iff, hne,
      microsOf_field h0 h]
    rfl

lemma readingText_append (i : Instant) (rest : List Char) {y mo d h mi s us : Int}
    (hi : i.fields = (y, mo, d, h, mi, s, us)) :
    i.readingText ++ rest = field 4 y ++ '-' :: (field 2 mo ++ '-' :: (field 2 d ++ 'T' :: (field 2 h ++ ':' ::
      (field 2 mi ++ ':' :: (field 2 s ++ ((if us == 0 then [] else '.' :: field 6 us) ++ rest)))))) := by
  simp [readingText, hi]

lemma after?_cons {marks : List Char} {c : Char} (hc : marks.contains c = true) (s : List Char) :
    after? marks (c :: s) = some s := by
  rw [after?, if_pos hc]

lemma hasDay_bounds {y m d : Int} (h : hasDay y m d = true) : (0 ≤ m ∧ m < 10 ^ 2) ∧ 0 ≤ d ∧ d < 10 ^ 2 := by
  simp only [hasDay, Bool.and_eq_true, decide_eq_true_eq] at h
  obtain ⟨⟨⟨hm, hm'⟩, hd⟩, hd'⟩ := h
  have hlast : monthDays y m ≤ 31 := by
    unfold monthDays
    split
    · split <;> omega
    · split <;> omega
  omega

/-- A date is read as it is written. -/
lemma dateOf?_field {y m d : Int} (h0 : 0 ≤ y) (h : y < 10 ^ 4) (hday : hasDay y m d = true) :
    dateOf? (field 4 y ++ '-' :: (field 2 m ++ '-' :: (field 2 d ++ rest))) = some (daysOfDate y m d, rest) := by
  obtain ⟨⟨hm, hm'⟩, hd, hd'⟩ := hasDay_bounds hday
  unfold dateOf?
  simp only [Option.bind_eq_bind, digits?_field (show 0 < 4 by decide) h0 h, digits?_field (show 0 < 2 by decide) hm hm',
    digits?_field (show 0 < 2 by decide) hd hd', Option.bind_some, after?_cons (show ['-'].contains '-' = true from rfl),
    hday, if_true]

/-- A time of the day in universal time is read as it is written. -/
lemma timeOf?_field {x : Int} (h0 : 0 ≤ x) (h : x < day) :
    timeOf? (field 2 (x / (3600 * second)) ++ ':' :: (field 2 (x / (60 * second) % 60) ++ ':' ::
      (field 2 (x / second % 60) ++ ((if x % second == 0 then [] else '.' :: field 6 (x % second)) ++ ['Z'])))) =
        some (x, some 0) := by
  obtain ⟨⟨hh, hh'⟩, ⟨hmi, hmi'⟩, ⟨hs, hs'⟩, ⟨hus, hus'⟩, hsum⟩ := day_parts h0 h
  unfold timeOf?
  simp only [Option.bind_eq_bind, digits?_field (show 0 < 2 by decide) hh (show x / (3600 * second) < 10 ^ 2 by omega),
    digits?_field (show 0 < 2 by decide) hmi (show x / (60 * second) % 60 < 10 ^ 2 by omega), Option.bind_some,
    after?_cons (show [':'].contains ':' = true from rfl), secondsOf?_field hs hs' hus hus', hh', hmi', guard,
    if_true, offsetOf?, hsum]
  rfl

/-- An instant of the calendar in universal time is read from its text. -/
theorem dateTimeOf?_text {i : Instant} (hi : inCalendar i.reading = true) (ho : i.offset = some 0) :
    dateTimeOf? i.text.toList = some i := by
  obtain ⟨reading, offset⟩ := i
  obtain rfl : offset = some 0 := ho
  obtain ⟨days, hdays⟩ : ∃ n, n = Int.fdiv reading day := ⟨_, rfl⟩
  obtain ⟨time, htime⟩ : ∃ x, x = reading - days * day := ⟨_, rfl⟩
  have hfirst : firstReading = -719162 * day := by decide
  have hend : endReading = 2932897 * day := by decide
  have hbounds : (-719162 ≤ days ∧ days ≤ 2932896) ∧ 0 ≤ time ∧ time < day := by
    rw [Int.fdiv_eq_ediv_of_nonneg _ (by decide)] at hdays
    simp only [inCalendar, Bool.and_eq_true, decide_eq_true_eq, hfirst, hend] at hi
    simp only [day, second] at *
    omega
  obtain ⟨y, m, d, hdate, hday, hback, hyear⟩ := dateOfDays_spec days
  obtain ⟨hy, hy'⟩ := hyear hbounds.1.1 hbounds.1.2
  have hfields : (Instant.mk reading (some 0)).fields = (y, m, d, time / (3600 * second), time / (60 * second) % 60,
      time / second % 60, time % second) := by
    simp only [fields, ← hdays, ← htime, hdate]
  have htext : (Instant.mk reading (some 0)).text.toList = (Instant.mk reading (some 0)).readingText ++ ['Z'] := by
    rw [text, String.toList_ofList]
    rfl
  rw [htext, readingText_append _ _ hfields]
  unfold dateTimeOf?
  simp only [Option.bind_eq_bind, dateOf?_field (show 0 ≤ y by omega) (show y < 10 ^ 4 by omega) hday, hback,
    Option.bind_some, after?_cons (show ['T', 't', ' ', '_'].contains 'T' = true from rfl),
    timeOf?_field hbounds.2.1 hbounds.2.2]
  rw [htime, show days * day + (reading - days * day) = reading by omega]
  rfl

end Ratchet.Instant

namespace Ratchet.Schema

/-- What is written of an instant of the calendar in universal time is read as the instant. -/
theorem instant_text {i : Instant} (hi : Instant.inCalendar i.reading = true) (ho : i.offset = some 0) :
    instant (.text i.text) = .ok i := by
  have hread : Instant.ofText? i.text = some i := by
    rw [Instant.ofText?, Instant.dateTimeOf?_text hi ho]
  simp only [instant, spelling, spelled, hread, Option.elim_some, inCalendar, hi, if_true]

end Ratchet.Schema
