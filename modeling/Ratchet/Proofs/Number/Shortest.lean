import Mathlib.Algebra.Order.Floor.Semifield
import Mathlib.Tactic
import Ratchet.Number.Binary64
import Ratchet.Proofs.Number
import Ratchet.Proofs.Number.Nearest

/-!
The shortest decimal of a number denotes the number.

Only decimals that read back are answered, so all there is to show is that the search ends. Seventeen digits are enough:
one unit of the last of them is less than a number's distance to its neighbours, even below a power of two.
-/

namespace Ratchet.Number

variable {d m n : Nat} {u q e : Int} {negative : Bool}

/-! ### Decimals -/

lemma tenTo_pos (k : Nat) : 0 < tenTo k := Nat.pow_pos (by decide)

lemma cast_tenTo (k : Nat) : (tenTo k : ℚ) = 10 ^ k := by
  rw [show tenTo k = 10 ^ k from rfl]
  push_cast
  rfl

/-- A number lies between the powers of ten that its digits are counted by. -/
lemma length_toDigits_bounds (h : 0 < n) : (10 : ℚ) ^ ((Nat.toDigits 10 n).length - 1 : Int) ≤ n ∧
    (n : ℚ) < 10 ^ ((Nat.toDigits 10 n).length : Int) := by
  obtain ⟨k, hk⟩ : ∃ k, (Nat.toDigits 10 n).length = k + 1 :=
    Nat.exists_eq_add_of_le' (Nat.length_toDigits_pos (b := 10) (n := n))
  rw [hk, show ((k + 1 : Nat) : Int) - 1 = (k : Int) by omega, zpow_natCast, zpow_natCast]
  constructor
  · rcases Nat.eq_zero_or_pos k with rfl | hpos
    · rw [pow_zero]
      exact_mod_cast h
    · have hlow := mt (Nat.length_toDigits_le_iff (b := 10) (n := n) (by decide) hpos).2 (by omega)
      exact_mod_cast not_lt.1 hlow
  · exact_mod_cast (Nat.length_toDigits_le_iff (b := 10) (n := n) (by decide) (Nat.succ_pos k)).1 (Nat.le_of_eq hk)

/-- A decimal that is neither too large nor too small is the number nearest to a quotient. -/
lemma ofDecimal_nearest (hd : 0 < d) (hlow : (10 : ℚ) ^ (-401 : Int) ≤ d * 10 ^ u)
    (hhigh : (d : ℚ) * 10 ^ u < 10 ^ (400 : Int)) :
    ∃ num den : Nat, 0 < num ∧ 0 < den ∧ (num : ℚ) / den = d * 10 ^ u ∧
      ∀ negative, ofDecimal negative d u = nearest negative num den := by
  obtain ⟨hl, hh⟩ := length_toDigits_bounds hd
  have hu : (0 : ℚ) < 10 ^ u := by positivity
  have hsize : -400 ≤ ((Nat.toDigits 10 d).length : Int) + u := by
    have hlt : (10 : ℚ) ^ (-401 : Int) < 10 ^ (((Nat.toDigits 10 d).length : Int) + u) := by
      rw [zpow_add₀ (by norm_num)]
      exact hlow.trans_lt (by gcongr)
    have := (zpow_lt_zpow_iff_right₀ (by norm_num)).1 hlt
    omega
  have hsize' : ((Nat.toDigits 10 d).length : Int) + u ≤ 400 := by
    have hlt : (10 : ℚ) ^ ((Nat.toDigits 10 d).length - 1 + u : Int) < 10 ^ (400 : Int) := by
      rw [zpow_add₀ (by norm_num)]
      exact lt_of_le_of_lt (by gcongr) hhigh
    have := (zpow_lt_zpow_iff_right₀ (by norm_num)).1 hlt
    omega
  have hof : ∀ negative, ofDecimal negative d u = if u < 0 then nearest negative d (tenTo (-u).toNat)
      else nearest negative (d * tenTo u.toNat) 1 := fun negative => by
    rw [ofDecimal, if_neg (by simp; omega), if_neg (by omega)]
  by_cases hneg : u < 0
  · refine ⟨d, tenTo (-u).toNat, hd, tenTo_pos _, ?_, fun negative => by rw [hof, if_pos hneg]⟩
    rw [cast_tenTo, ← zpow_natCast, show ((-u).toNat : Int) = -u by omega, zpow_neg, div_inv_eq_mul]
  · refine ⟨d * tenTo u.toNat, 1, Nat.mul_pos hd (tenTo_pos _), one_pos, ?_, fun negative => by rw [hof, if_neg hneg]⟩
    push_cast
    rw [cast_tenTo, ← zpow_natCast, show (u.toNat : Int) = u by omega, div_one]

/-- A decimal has the same fields with both signs. -/
lemma ofDecimal_fields (d : Nat) (u : Int) :
    ∃ e f, Fields e f ∧ ∀ negative, ofDecimal negative d u = ofFields negative e f := by
  unfold ofDecimal
  dsimp only
  split
  · exact ⟨0, 0, ⟨by decide, by decide, fun _ => rfl⟩, fun _ => rfl⟩
  split
  · exact ⟨2047, 0, ⟨by decide, by decide, fun _ => rfl⟩, fun _ => rfl⟩
  split
  · exact nearest_fields _ _
  · exact nearest_fields _ _

/-- A zero at the end of the digits is a place of the exponent. -/
lemma ofDecimal_mul_ten (d : Nat) (u : Int) : ofDecimal negative (d * 10) u = ofDecimal negative d (u + 1) := by
  rcases Nat.eq_zero_or_pos d with rfl | hd
  · simp [ofDecimal]
  have hlen : ((Nat.toDigits 10 (d * 10)).length : Int) + u = (Nat.toDigits 10 d).length + (u + 1) := by
    rw [Nat.toDigits_of_base_le (by decide) (by omega), Nat.mul_div_cancel _ (by decide), List.length_append,
      List.length_singleton]
    push_cast
    omega
  have hzero : (d * 10 == 0) = (d == 0) := by simp
  unfold ofDecimal
  dsimp only
  rw [hlen, hzero]
  split
  · rfl
  split
  · rfl
  · by_cases hu : u < -1
    · rw [if_pos (by omega), if_pos (by omega), show (-u).toNat = (-(u + 1)).toNat + 1 by omega]
      apply nearest_congr (by omega) (tenTo_pos _) hd (tenTo_pos _)
      rw [cast_tenTo, cast_tenTo, pow_succ]
      push_cast
      field_simp
    by_cases hu' : u < 0
    · obtain rfl : u = -1 := by omega
      rw [if_pos (by decide), if_neg (by decide)]
      apply nearest_congr (by omega) (tenTo_pos _) (by simpa [tenTo] using hd) one_pos
      simp [tenTo]
    · rw [if_neg hu', if_neg (by omega), show (u + 1).toNat = u.toNat + 1 by omega, Nat.mul_right_comm, Nat.mul_assoc]
      rfl

lemma ofDecimal_mul_tens (d k : Nat) (u : Int) : ofDecimal negative (d * 10 ^ k) u = ofDecimal negative d (u + k) := by
  induction k generalizing u with
  | zero => rw [pow_zero, Nat.mul_one, Nat.cast_zero, add_zero]
  | succ k ih =>
    rw [pow_succ, ← Nat.mul_assoc, ofDecimal_mul_ten, ih]
    congr 1
    push_cast
    omega

/-! ### Seventeen digits -/

/-- A finite number is at least a power of ten, and less than another one. -/
lemma Canonical.bounds (hc : Canonical m q) (hm : 0 < m) :
    (10 : ℚ) ^ (-324 : Int) ≤ m * 2 ^ q ∧ (m : ℚ) * 2 ^ q < 10 ^ (310 : Int) := by
  have hm' : (1 : ℚ) ≤ m := by exact_mod_cast hm
  have hlt : (m : ℚ) < 2 ^ (53 : Int) := by exact_mod_cast hc.mantissa
  have hleast : (10 : ℚ) ^ (-324 : Int) ≤ 2 ^ (-1074 : Int) := by
    rw [zpow_neg, zpow_neg]
    refine inv_anti₀ (by positivity) ?_
    exact_mod_cast (by decide +kernel : 2 ^ 1074 ≤ 10 ^ 324)
  have hgreatest : (2 : ℚ) ^ (1024 : Int) ≤ 10 ^ (310 : Int) := by
    exact_mod_cast (by decide +kernel : 2 ^ 1024 ≤ 10 ^ 310)
  constructor
  · calc (10 : ℚ) ^ (-324 : Int) ≤ 2 ^ (-1074 : Int) := hleast
      _ ≤ 2 ^ q := zpow_le_zpow_right₀ (by norm_num) hc.least
      _ ≤ m * 2 ^ q := le_mul_of_one_le_left (by positivity) hm'
  · calc (m : ℚ) * 2 ^ q < 2 ^ (53 : Int) * 2 ^ q := by gcongr
      _ = 2 ^ (53 + q) := (zpow_add₀ (by norm_num) _ _).symm
      _ ≤ 2 ^ (1024 : Int) := zpow_le_zpow_right₀ (by norm_num) (by have := hc.greatest; omega)
      _ ≤ 10 ^ (310 : Int) := hgreatest

/-- The power of ten of its first digit is not greater than a number. -/
lemma leadingExponent_le (hc : Canonical m q) (hm : 0 < m) : (10 : ℚ) ^ leadingExponent m q ≤ m * 2 ^ q := by
  have hlow := (hc.bounds hm).1
  obtain ⟨n, hn, hfloor⟩ : ∃ n : Nat, leadingExponent m q = ((Nat.toDigits 10 n).length : Int) - 1 - 330 ∧
      n = ⌊(m : ℚ) * 2 ^ q * 10 ^ 330⌋₊ := by
    refine ⟨_, rfl, ?_⟩
    by_cases hq : q < 0
    · rw [if_pos hq, ← Nat.floor_div_eq_div (K := ℚ), Nat.cast_mul, cast_tenTo, cast_twoTo, ← zpow_natCast 2,
        show ((-q).toNat : Int) = -q by omega, zpow_neg, div_inv_eq_mul, mul_right_comm]
    · rw [if_neg hq, ← Nat.floor_natCast (R := ℚ) (m * tenTo 330 * twoTo q.toNat), Nat.cast_mul, Nat.cast_mul,
        cast_tenTo, cast_twoTo, ← zpow_natCast 2, show (q.toNat : Int) = q by omega, mul_right_comm]
  have hone : (1 : ℚ) ≤ m * 2 ^ q * 10 ^ 330 :=
    calc (1 : ℚ) = 10 ^ (-324 : Int) * 10 ^ (324 : Nat) := by norm_num
      _ ≤ m * 2 ^ q * 10 ^ 330 := by gcongr <;> norm_num
  have hpos : 0 < n := by
    rw [hfloor]
    exact Nat.floor_pos.2 hone
  have hle : (n : ℚ) ≤ m * 2 ^ q * 10 ^ 330 := by
    rw [hfloor]
    exact Nat.floor_le (by positivity)
  rw [hn, zpow_sub₀ (by norm_num), div_le_iff₀ (by positivity)]
  exact (length_toDigits_bounds hpos).1.trans (by exact_mod_cast hle)

/-- A number in units of a power of ten. -/
def inUnits (m : Nat) (q unit : Int) : Nat × Nat :=
  (m * (if q < 0 then 1 else twoTo q.toNat) * (if unit < 0 then tenTo (-unit).toNat else 1),
    (if q < 0 then twoTo (-q).toNat else 1) * (if unit < 0 then 1 else tenTo unit.toNat))

lemma inUnits_pos (m : Nat) (q unit : Int) : 0 < (inUnits m q unit).2 := by
  refine Nat.mul_pos ?_ ?_
  · split
    · exact twoTo_pos _
    · exact one_pos
  · split
    · exact one_pos
    · exact tenTo_pos _

lemma inUnits_value (m : Nat) (q unit : Int) :
    ((inUnits m q unit).1 : ℚ) / (inUnits m q unit).2 = m * 2 ^ q / 10 ^ unit := by
  have htwo : ((if q < 0 then 1 else twoTo q.toNat : Nat) : ℚ) =
      2 ^ q * (if q < 0 then twoTo (-q).toNat else 1 : Nat) := by
    split
    · rw [cast_twoTo, ← zpow_natCast, show ((-q).toNat : Int) = -q by omega, ← zpow_add₀ (by norm_num), add_neg_cancel,
        zpow_zero, Nat.cast_one]
    · rw [cast_twoTo, ← zpow_natCast, show (q.toNat : Int) = q by omega, Nat.cast_one, mul_one]
  have hten : ((if unit < 0 then 1 else tenTo unit.toNat : Nat) : ℚ) =
      10 ^ unit * (if unit < 0 then tenTo (-unit).toNat else 1 : Nat) := by
    split
    · rw [cast_tenTo, ← zpow_natCast, show ((-unit).toNat : Int) = -unit by omega, ← zpow_add₀ (by norm_num),
        add_neg_cancel, zpow_zero, Nat.cast_one]
    · rw [cast_tenTo, ← zpow_natCast, show (unit.toNat : Int) = unit by omega, Nat.cast_one, mul_one]
  have hden : ((if q < 0 then twoTo (-q).toNat else 1 : Nat) : ℚ) ≠ 0 := by
    split
    · rw [cast_twoTo]
      positivity
    · exact one_ne_zero
  have hnum : ((if unit < 0 then tenTo (-unit).toNat else 1 : Nat) : ℚ) ≠ 0 := by
    split
    · rw [cast_tenTo]
      positivity
    · exact one_ne_zero
  rw [inUnits, Nat.cast_mul, Nat.cast_mul, Nat.cast_mul, htwo, hten]
  field_simp

/-- Whether a decimal is read back as the number. -/
def Denotes (m : Nat) (q : Int) (d : Nat) (unit : Int) : Prop := 0 < d ∧ ofDecimal false d unit = assemble false m q

lemma denotes_iff : (0 < d && (ofDecimal false d u).toBits == (assemble false m q).toBits) = true ↔ Denotes m q d u := by
  rw [Bool.and_eq_true, decide_eq_true_eq, beq_iff_eq]
  exact and_congr_right fun _ => ⟨toBits_injective, congrArg _⟩

lemma shortOn?_eq (m : Nat) (q e : Int) (n : Nat) : shortOn? m q e n =
    let unit : Int := e - n + 1
    let good (d : Nat) : Bool := 0 < d && (ofDecimal false d unit).toBits == (assemble false m q).toBits
    let low := (inUnits m q unit).1 / (inUnits m q unit).2
    let best := roundDiv (inUnits m q unit).1 (inUnits m q unit).2
    if good best then some (best, unit)
    else if good low then some (low, unit)
    else if good (low + 1) then some (low + 1, unit)
    else none := rfl

/-- A number is denoted by its nearest decimal of seventeen digits. -/
lemma denotes_seventeen (hc : Canonical m q) (hm : 0 < m) :
    Denotes m q (roundDiv (inUnits m q (leadingExponent m q - 16)).1 (inUnits m q (leadingExponent m q - 16)).2)
      (leadingExponent m q - 16) := by
  obtain ⟨hleast, hgreatest⟩ := hc.bounds hm
  have hlead : (10 : ℚ) ^ (leadingExponent m q - 16) * 10 ^ 16 ≤ m * 2 ^ q := by
    rw [← zpow_natCast 10 16, ← zpow_add₀ (by norm_num),
      show leadingExponent m q - 16 + (16 : Nat) = leadingExponent m q by omega]
    exact leadingExponent_le hc hm
  have hround := abs_roundDiv_sub (a := (inUnits m q (leadingExponent m q - 16)).1)
    (inUnits_pos m q (leadingExponent m q - 16))
  rw [inUnits_value] at hround
  generalize roundDiv _ _ = d at hround ⊢
  generalize leadingExponent m q - 16 = u at hlead hround ⊢
  have hu : (0 : ℚ) < 10 ^ u := by positivity
  have hq : (0 : ℚ) < 2 ^ q := by positivity
  have hm' : (m : ℚ) < 2 ^ 53 := by exact_mod_cast hc.mantissa
  have hdiff : |(d : ℚ) * 10 ^ u - m * 2 ^ q| ≤ 10 ^ u / 2 := by
    rw [show (d : ℚ) * 10 ^ u - m * 2 ^ q = (d - m * 2 ^ q / 10 ^ u) * 10 ^ u by field_simp, abs_mul, abs_of_pos hu]
    linarith [mul_le_mul_of_nonneg_right hround hu.le]
  obtain ⟨hlow, hhigh⟩ := abs_le.1 hdiff
  have hd : 0 < d := by
    rcases Nat.eq_zero_or_pos d with rfl | hd
    · rw [Nat.cast_zero, zero_mul] at hlow
      linarith
    · exact hd
  have hsmall : (10 : ℚ) ^ (-401 : Int) ≤ d * 10 ^ u :=
    calc (10 : ℚ) ^ (-401 : Int) = 10 ^ (-324 : Int) * 10 ^ (-77 : Int) := (zpow_add₀ (by norm_num) (-324) (-77))
      _ ≤ m * 2 ^ q * (1 / 2) := by gcongr; norm_num
      _ ≤ d * 10 ^ u := by linarith
  have hlarge : (d : ℚ) * 10 ^ u < 10 ^ (400 : Int) :=
    calc (d : ℚ) * 10 ^ u ≤ m * 2 ^ q * 2 := by linarith
      _ < 10 ^ (310 : Int) * 2 := by gcongr
      _ ≤ 10 ^ (310 : Int) * 10 ^ (90 : Int) := by gcongr; norm_num
      _ = 10 ^ (400 : Int) := (zpow_add₀ (by norm_num) 310 90).symm
  obtain ⟨num, den, hnum, hden, hval, hof⟩ := ofDecimal_nearest hd hsmall hlarge
  refine ⟨hd, (hof false).trans (nearest_of_near hnum hden hc ?_ ?_)⟩
  · rw [hval]
    refine hdiff.trans_lt ?_
    nlinarith
  · rintro rfl
    rw [hval]
    push_cast at hlead ⊢
    linarith

/-- The search answers only decimals that are read back. -/
lemma shortOn?_denotes {du : Nat × Int} (h : shortOn? m q e n = some du) : Denotes m q du.1 du.2 := by
  rw [shortOn?_eq] at h
  generalize inUnits m q _ = units at h
  dsimp only at h
  split at h
  · rename_i hgood
    rw [← Option.some.inj h]
    exact denotes_iff.1 hgood
  split at h
  · rename_i hgood
    rw [← Option.some.inj h]
    exact denotes_iff.1 hgood
  split at h
  · rename_i hgood
    rw [← Option.some.inj h]
    exact denotes_iff.1 hgood
  · exact absurd h nofun

lemma shortOn?_isSome (hc : Canonical m q) (hm : 0 < m) : (shortOn? m q (leadingExponent m q) 17).isSome = true := by
  have hgood := denotes_iff.2 (denotes_seventeen hc hm)
  rw [shortOn?_eq, show leadingExponent m q - (17 : Nat) + 1 = leadingExponent m q - 16 by omega]
  dsimp only
  rw [if_pos hgood]
  rfl

/-- **The shortest digits denote the number.** -/
theorem shortDigits_denotes (hc : Canonical m q) (hm : 0 < m) :
    Denotes m q (shortDigits m q).1 (shortDigits m q).2 := by
  have hsome : ((List.range 17).findSome? fun n => shortOn? m q (leadingExponent m q) (n + 1)).isSome = true :=
    List.findSome?_isSome_iff.2 ⟨16, by decide, shortOn?_isSome hc hm⟩
  obtain ⟨du, hdu⟩ := Option.isSome_iff_exists.1 hsome
  obtain ⟨n, -, hn⟩ := List.exists_of_findSome?_eq_some hdu
  rw [shortDigits, hdu, Option.getD_some]
  exact shortOn?_denotes hn

lemma stripZeros_denotes (fuel : Nat) (h : Denotes m q d u) :
    Denotes m q (stripZeros fuel d u).1 (stripZeros fuel d u).2 := by
  induction fuel generalizing d u with
  | zero => exact h
  | succ fuel ih =>
    rw [stripZeros]
    split
    · rename_i hz
      obtain ⟨hd, heq⟩ := h
      rw [Bool.and_eq_true, beq_iff_eq] at hz
      apply ih
      refine ⟨by omega, ?_⟩
      rw [← ofDecimal_mul_ten, Nat.div_mul_cancel (Nat.dvd_of_mod_eq_zero hz.2), heq]
    · exact h

/-- What denotes a number does so with both signs. -/
lemma Denotes.signed (hc : Canonical m q) (h : Denotes m q d u) (negative : Bool) :
    ofDecimal negative d u = assemble negative m q := by
  obtain ⟨e, f, hf, heq⟩ := ofDecimal_fields d u
  obtain ⟨e', f', hf', heq'⟩ := assemble_fields (q := q) (Nat.le_of_lt hc.mantissa)
  have hsame := h.2
  rw [heq, heq'] at hsame
  obtain ⟨rfl, rfl⟩ := ofFields_inj hf hf' hsame
  rw [heq, heq']

end Ratchet.Number
