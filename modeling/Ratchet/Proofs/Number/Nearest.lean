import Mathlib.Tactic
import Ratchet.Number.Binary64
import Ratchet.Proofs.Number.Bits

/-!
The nearest binary number of a quotient.

A positive quotient is rounded in units of a power of two, the one that leaves fifty-three bits of it. That power depends
on the value of the quotient alone, so the nearest number does too. A quotient that lies close to a number is rounded to
it; below a power of two the units are half as large, so there it has to be closer.
-/

namespace Ratchet.Number

variable {a b c d num den m n : Nat} {q q' : Int} {negative : Bool} {v : ℚ}

/-! ### Rounding -/

/-- Rounding a quotient does not depend on how it is written. -/
lemma roundDiv_mul (hc : 0 < c) : roundDiv (a * c) (b * c) = roundDiv a b := by
  have hlt : b * c < 2 * (a % b * c) ↔ b < 2 * (a % b) := by
    rw [← Nat.mul_assoc, Nat.mul_lt_mul_right hc]
  have heq : 2 * (a % b * c) = b * c ↔ 2 * (a % b) = b := by
    rw [← Nat.mul_assoc, Nat.mul_right_cancel_iff hc]
  simp only [roundDiv, Nat.mul_div_mul_right a b hc, Nat.mul_mod_mul_right, hlt]
  rw [show (2 * (a % b * c) == b * c) = (2 * (a % b) == b) from
    Bool.eq_iff_iff.2 (by rw [beq_iff_eq, beq_iff_eq, heq])]

/-- The rounded quotient depends on the value of the quotient alone. -/
lemma roundDiv_congr (hb : 0 < b) (hd : 0 < d) (h : (a : ℚ) / b = c / d) : roundDiv a b = roundDiv c d := by
  have hb' : (b : ℚ) ≠ 0 := by positivity
  have hd' : (d : ℚ) ≠ 0 := by positivity
  rw [div_eq_div_iff hb' hd'] at h
  have hnat : a * d = c * b := by exact_mod_cast h
  rw [← roundDiv_mul (a := a) (b := b) hd, hnat, Nat.mul_comm b d, roundDiv_mul hb]

/-- The rounded quotient is the whole number that is less than a half away. -/
lemma roundDiv_eq (hb : 0 < b) (h : |(a : ℚ) / b - n| < 1 / 2) : roundDiv a b = n := by
  obtain ⟨hlow, hhigh⟩ := roundDiv_near a b hb
  have hb' : (0 : ℚ) < b := by exact_mod_cast hb
  rw [abs_lt] at h
  have h1 : (a : ℚ) < (n + 1 / 2) * b := by
    rw [← div_lt_iff₀ hb']
    linarith [h.2]
  have h2 : ((n : ℚ) - 1 / 2) * b < a := by
    rw [← lt_div_iff₀ hb']
    linarith [h.1]
  have hlow' : (2 : ℚ) * a ≤ 2 * (roundDiv a b * b) + b := by exact_mod_cast hlow
  have hhigh' : (2 : ℚ) * (roundDiv a b * b) ≤ 2 * a + b := by exact_mod_cast hhigh
  have hup : (roundDiv a b : ℚ) < n + 1 := by
    by_contra hge
    nlinarith [not_lt.1 hge]
  have hdown : (n : ℚ) - 1 < roundDiv a b := by
    by_contra hge
    nlinarith [not_lt.1 hge]
  have hup' : roundDiv a b < n + 1 := by exact_mod_cast hup
  have hdown' : n < roundDiv a b + 1 := by
    have : (n : ℚ) < roundDiv a b + 1 := by linarith
    exact_mod_cast this
  omega

/-- The rounded quotient is at most a half away. -/
lemma abs_roundDiv_sub (hb : 0 < b) : |(roundDiv a b : ℚ) - a / b| ≤ 1 / 2 := by
  obtain ⟨hlow, hhigh⟩ := roundDiv_near a b hb
  have hb' : (0 : ℚ) < b := by exact_mod_cast hb
  have hlow' : (2 : ℚ) * a ≤ 2 * (roundDiv a b * b) + b := by exact_mod_cast hlow
  have hhigh' : (2 : ℚ) * (roundDiv a b * b) ≤ 2 * a + b := by exact_mod_cast hhigh
  have h1 : (a : ℚ) / b ≤ roundDiv a b + 1 / 2 := by
    rw [div_le_iff₀ hb']
    linarith
  have h2 : (roundDiv a b : ℚ) - 1 / 2 ≤ a / b := by
    rw [le_div_iff₀ hb']
    linarith
  rw [abs_le]
  constructor <;> linarith

/-! ### The exponent of a rounded quotient -/

/-- A quotient in units of a power of two. -/
def scaled (num den : Nat) (q : Int) : Nat × Nat :=
  if q < 0 then (num * twoTo (-q).toNat, den) else (num, den * twoTo q.toNat)

lemma twoTo_pos (k : Nat) : 0 < twoTo k := Nat.two_pow_pos k

lemma cast_twoTo (k : Nat) : (twoTo k : ℚ) = 2 ^ k := by
  rw [show twoTo k = 2 ^ k from rfl]
  push_cast
  rfl

lemma scaled_pos (hd : 0 < den) : 0 < (scaled num den q).2 := by
  unfold scaled
  split
  · exact hd
  · exact Nat.mul_pos hd (twoTo_pos _)

lemma scaled_value (hd : 0 < den) : ((scaled num den q).1 : ℚ) / (scaled num den q).2 = num / den / 2 ^ q := by
  have hd' : (den : ℚ) ≠ 0 := by positivity
  unfold scaled
  split
  · rename_i hq
    obtain ⟨k, rfl⟩ : ∃ k : Nat, q = -k := ⟨(-q).toNat, by omega⟩
    rw [show (-(-(k : Int))).toNat = k by omega, zpow_neg, zpow_natCast]
    push_cast
    rw [cast_twoTo]
    field_simp
  · rename_i hq
    obtain ⟨k, rfl⟩ : ∃ k : Nat, q = k := ⟨q.toNat, by omega⟩
    rw [Int.toNat_natCast, zpow_natCast]
    push_cast
    rw [cast_twoTo]
    field_simp

/-- Whether a positive number is rounded in units of a power of two: fifty-three bits are left of it, or fewer in units
of the least power. -/
structure Fits (v : ℚ) (q : Int) : Prop where
  least : -1074 ≤ q
  below : v < 2 ^ (q + 53)
  above : q = -1074 ∨ 2 ^ (q + 52) ≤ v

lemma Fits.unique (h : Fits v q) (h' : Fits v q') : q = q' := by
  have hle : ∀ {q q' : Int}, Fits v q → Fits v q' → q ≤ q' := by
    intro q q' h h'
    by_contra hlt
    rcases h.above with habove | habove
    · have hl := h'.least
      omega
    · have hpow : (2 : ℚ) ^ (q' + 53) ≤ 2 ^ (q + 52) := zpow_le_zpow_right₀ (by norm_num) (by omega)
      exact absurd h'.below (not_lt.2 (hpow.trans habove))
  exact le_antisymm (hle h h') (hle h' h)

/-- The exponent that is chosen for a quotient. -/
def exponentFor (num den : Nat) : Int :=
  let q₀ : Int := max ((Nat.log2 num : Int) - Nat.log2 den - 53) (-1074)
  if twoTo 53 ≤ (scaled num den q₀).1 / (scaled num den q₀).2 then q₀ + 1 else q₀

lemma nearest_eq (hn : 0 < num) (hd : 0 < den) : nearest negative num den =
    assemble negative (roundDiv (scaled num den (exponentFor num den)).1 (scaled num den (exponentFor num den)).2)
      (exponentFor num den) := by
  rw [nearest, if_neg (by simp; omega)]
  rfl

lemma log2_bounds (hn : 0 < n) : (2 : ℚ) ^ (Nat.log2 n : Int) ≤ n ∧ (n : ℚ) < 2 ^ ((Nat.log2 n : Int) + 1) := by
  have hlow := Nat.log2_self_le (Nat.pos_iff_ne_zero.1 hn)
  have hhigh := Nat.lt_log2_self (n := n)
  constructor
  · rw [zpow_natCast]
    exact_mod_cast hlow
  · rw [show (Nat.log2 n : Int) + 1 = ((Nat.log2 n + 1 : Nat) : Int) by push_cast; rfl, zpow_natCast]
    exact_mod_cast hhigh

/-- A quotient lies within a factor of two of the quotient of the leading bits. -/
lemma div_log2_bounds (hn : 0 < num) (hd : 0 < den) :
    (2 : ℚ) ^ ((Nat.log2 num : Int) - Nat.log2 den - 1) ≤ num / den ∧
      (num : ℚ) / den < 2 ^ ((Nat.log2 num : Int) - Nat.log2 den + 1) := by
  obtain ⟨hnl, hnh⟩ := log2_bounds hn
  obtain ⟨hdl, hdh⟩ := log2_bounds hd
  have hd' : (0 : ℚ) < den := by exact_mod_cast hd
  set k : Int := (Nat.log2 num : Int) - Nat.log2 den with hk
  constructor
  · rw [le_div_iff₀ hd']
    calc (2 : ℚ) ^ (k - 1) * den ≤ 2 ^ (k - 1) * 2 ^ ((Nat.log2 den : Int) + 1) := by gcongr
      _ = 2 ^ (Nat.log2 num : Int) := by
        rw [← zpow_add₀ (by norm_num)]
        congr 1
        omega
      _ ≤ num := hnl
  · rw [div_lt_iff₀ hd']
    calc (num : ℚ) < 2 ^ ((Nat.log2 num : Int) + 1) := hnh
      _ = 2 ^ (k + 1) * 2 ^ (Nat.log2 den : Int) := by
        rw [← zpow_add₀ (by norm_num)]
        congr 1
        omega
      _ ≤ 2 ^ (k + 1) * den := by gcongr

/-- The whole part of a scaled quotient has more than fifty-three bits exactly when the quotient is that large. -/
lemma twoTo_53_le_scaled_iff (hd : 0 < den) (q : Int) :
    twoTo 53 ≤ (scaled num den q).1 / (scaled num den q).2 ↔ (2 : ℚ) ^ (q + 53) ≤ num / den := by
  have hpos : (0 : ℚ) < (scaled num den q).2 := by exact_mod_cast scaled_pos hd
  have hcast : twoTo 53 * (scaled num den q).2 ≤ (scaled num den q).1 ↔
      (2 : ℚ) ^ (53 : Nat) * (scaled num den q).2 ≤ (scaled num den q).1 := by
    rw [← cast_twoTo]
    exact_mod_cast Iff.rfl
  rw [Nat.le_div_iff_mul_le (scaled_pos hd), hcast, ← le_div_iff₀ hpos, scaled_value hd, le_div_iff₀ (by positivity),
    show (q + 53 : Int) = ((53 : Nat) : Int) + q by push_cast; omega, zpow_add₀ (by norm_num), zpow_natCast]

lemma fits_exponentFor (hn : 0 < num) (hd : 0 < den) : Fits (num / den) (exponentFor num den) := by
  obtain ⟨hlow, hhigh⟩ := div_log2_bounds hn hd
  simp only [exponentFor]
  set k : Int := (Nat.log2 num : Int) - Nat.log2 den with hk
  set q₀ : Int := max (k - 53) (-1074) with hq₀
  have hover : (num : ℚ) / den < 2 ^ (q₀ + 54) := hhigh.trans_le (zpow_le_zpow_right₀ (by norm_num) (by omega))
  split
  · rename_i h
    refine ⟨by omega, ?_, .inr ?_⟩
    · rwa [show q₀ + 1 + 53 = q₀ + 54 by omega]
    · rw [show q₀ + 1 + 52 = q₀ + 53 by omega]
      exact (twoTo_53_le_scaled_iff hd q₀).1 h
  · rename_i h
    refine ⟨by omega, not_le.1 (mt (twoTo_53_le_scaled_iff hd q₀).2 h), ?_⟩
    by_cases hq : q₀ = -1074
    · exact .inl hq
    · refine .inr ?_
      rwa [show q₀ + 52 = k - 1 by omega]

/-- The nearest number depends on the value of the quotient alone. -/
theorem nearest_congr (ha : 0 < a) (hb : 0 < b) (hc : 0 < c) (hd : 0 < d) (h : (a : ℚ) / b = c / d) :
    nearest negative a b = nearest negative c d := by
  have hfits := fits_exponentFor ha hb
  rw [h] at hfits
  rw [nearest_eq ha hb, nearest_eq hc hd, hfits.unique (fits_exponentFor hc hd),
    roundDiv_congr (scaled_pos hb) (scaled_pos hd) (by rw [scaled_value hb, scaled_value hd, h])]

/-- A quotient that fits is rounded to at most fifty-three bits, or to the next power of two. -/
lemma roundDiv_le_of_fits (hd : 0 < den) (h : Fits (num / den) q) :
    roundDiv (scaled num den q).1 (scaled num den q).2 ≤ 2 ^ 53 := by
  have hpos : 0 < (scaled num den q).2 := scaled_pos hd
  have hround := abs_roundDiv_sub (a := (scaled num den q).1) hpos
  have hbelow := h.below
  rw [add_comm, zpow_add₀ (by norm_num), ← div_lt_iff₀ (by positivity), ← scaled_value hd] at hbelow
  have hlt : (roundDiv (scaled num den q).1 (scaled num den q).2 : ℚ) < 2 ^ (53 : Int) + 1 := by
    linarith [(abs_le.1 hround).2]
  exact Nat.le_of_lt_succ (by exact_mod_cast hlt)

/-- The nearest number has the same fields with both signs. -/
lemma nearest_fields (num den : Nat) :
    ∃ e f, Fields e f ∧ ∀ negative, nearest negative num den = ofFields negative e f := by
  by_cases hzero : num = 0 ∨ den = 0
  · refine ⟨0, 0, ⟨by decide, by decide, fun _ => rfl⟩, fun negative => ?_⟩
    rw [nearest, if_pos (by simpa using hzero)]
  obtain ⟨hn, hd⟩ : 0 < num ∧ 0 < den := by omega
  obtain ⟨e, f, hf, heq⟩ := assemble_fields (q := exponentFor num den) (roundDiv_le_of_fits hd (fits_exponentFor hn hd))
  exact ⟨e, f, hf, fun negative => by rw [nearest_eq hn hd, heq]⟩

/-! ### Numbers close by -/

/-- A power of two in smaller units. -/
lemma zpow_units (q : Int) (k : Nat) : (2 : ℚ) ^ (q + k) = 2 ^ k * 2 ^ q := by
  rw [zpow_add₀ (by norm_num), zpow_natCast, mul_comm]

/-- A quotient that is rounded in the units of a number is rounded to that number if it is less than half a unit away. -/
lemma nearest_of_fits (hn : 0 < num) (hd : 0 < den) (hfits : Fits (num / den) q)
    (hnear : |(num : ℚ) / den - m * 2 ^ q| < 2 ^ q / 2) : nearest negative num den = assemble negative m q := by
  have hu : (0 : ℚ) < 2 ^ q := by positivity
  have hround : roundDiv (scaled num den q).1 (scaled num den q).2 = m := by
    apply roundDiv_eq (scaled_pos hd)
    rw [scaled_value hd, show (num : ℚ) / den / 2 ^ q - m = (num / den - m * 2 ^ q) / 2 ^ q by field_simp, abs_div,
      abs_of_pos hu, div_lt_iff₀ hu]
    linarith
  rw [nearest_eq hn hd, (fits_exponentFor hn hd).unique hfits, hround]

/-- A number with all bits rounded up is the next power of two. -/
lemma assemble_carry : assemble negative (2 ^ 53) (q - 1) = assemble negative (2 ^ 52) q := by
  rw [assemble, assemble, if_neg (by rw [twoTo_52]; decide), if_pos (by rw [twoTo_53]; decide),
    if_neg (by rw [twoTo_52]; decide), if_neg (by rw [twoTo_53]; decide), sub_add_cancel]
  rfl

/-- **A quotient near a number is rounded to it.** Near is less than half a unit of its last bit away, or a quarter below
a power of two, where the units get smaller. -/
theorem nearest_of_near (hn : 0 < num) (hd : 0 < den) (hc : Canonical m q)
    (hnear : |(num : ℚ) / den - m * 2 ^ q| < 2 ^ q / 2)
    (hbelow : m = 2 ^ 52 → (m : ℚ) * 2 ^ q - num / den < 2 ^ q / 4) :
    nearest negative num den = assemble negative m q := by
  obtain ⟨hm, hleast, -, hlead⟩ := hc
  have hu : (0 : ℚ) < 2 ^ q := by positivity
  have h52 : (2 : ℚ) ^ (q + 52) = 2 ^ 52 * 2 ^ q := zpow_units q 52
  have h53 : (2 : ℚ) ^ (q + 53) = 2 ^ 53 * 2 ^ q := zpow_units q 53
  have hm' : (m : ℚ) ≤ 2 ^ 53 - 1 := by
    have hsucc : (m : ℚ) + 1 ≤ 2 ^ 53 := by exact_mod_cast hm
    linarith
  obtain ⟨hlow, hhigh⟩ := abs_lt.1 hnear
  by_cases hunits : q = -1074 ∨ (2 : ℚ) ^ (q + 52) ≤ num / den
  · refine nearest_of_fits hn hd ⟨hleast, ?_, hunits⟩ hnear
    rw [h53]
    nlinarith
  -- The number is a power of two and the quotient lies below it, where the units are half as large.
  obtain ⟨hq, hv⟩ := not_or.1 hunits
  rw [h52, not_le] at hv
  obtain rfl : m = 2 ^ 52 := by
    by_contra hne
    have hgt : 2 ^ 52 + 1 ≤ m := by omega
    have hgt' : (2 : ℚ) ^ 52 + 1 ≤ m := by exact_mod_cast hgt
    nlinarith
  have hquarter := hbelow rfl
  rw [show ((2 ^ 52 : Nat) : ℚ) = 2 ^ 52 by push_cast; rfl] at hquarter
  have hpred : ∀ k : Nat, (2 : ℚ) ^ (q - 1 + k) = 2 ^ k * 2 ^ q / 2 := fun k => by
    rw [zpow_units, zpow_sub_one₀ (by norm_num)]
    ring
  have hhalf : (2 : ℚ) ^ (q - 1) = 2 ^ q / 2 := by
    rw [zpow_sub_one₀ (by norm_num)]
    rfl
  have hfits : Fits ((num : ℚ) / den) (q - 1) := by
    refine ⟨by omega, ?_, .inr ?_⟩
    · rw [show (2 : ℚ) ^ (q - 1 + 53) = _ from hpred 53]
      linarith
    · rw [show (2 : ℚ) ^ (q - 1 + 52) = _ from hpred 52]
      linarith
  rw [← assemble_carry]
  apply nearest_of_fits hn hd hfits
  rw [show ((2 ^ 53 : Nat) : ℚ) = 2 ^ 53 by push_cast; rfl, hhalf, abs_lt]
  constructor <;> linarith

end Ratchet.Number
