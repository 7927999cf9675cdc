import Ratchet.Proofs.Number.Nearest

/-!
The order of binary numbers.

Numbers that are not negative come in the order of their fields: the one with the greater exponent is greater, and of two
with the same exponent the one with the greater fraction. So a share of a whole that was rounded is more than a half just
when it is at least a half and a bit of the rounded fraction is set; a share that exceeds a half by a little is rounded
to a half.
-/

namespace Ratchet.Number

variable {e f e' f' a b n : Nat}

section

open Float.Model Float.Model.UnpackedFloat

/-- The significand of a number that is not negative. -/
def significand (e f : Nat) : Nat := if e = 0 then f else 2 ^ 52 + f

lemma finite_congr {s : Sign} {m m' : Nat} {q q' : Int} {h : 0 < m} (hm : m = m') (hq : q = q') :
    ∃ h', UnpackedFloat.finite s m q h = .finite s m' q' h' := by
  obtain rfl := hm
  obtain rfl := hq
  exact ⟨h, rfl⟩

section
variable {v : BitVec Format.binary64.numBits}

lemma toNat_unpackExponent (h : Fields e f) (hv : v.toNat = e * 2 ^ 52 + f) : (unpackExponent v).toNat = e := by
  have he : e ≤ 2047 := h.exponent
  have hf : f < 2 ^ 52 := h.fraction
  simp only [unpackExponent, BitVec.extractLsb, BitVec.toNat_cast, BitVec.extractLsb'_toNat]
  rw [Nat.shiftRight_eq_div_pow, hv]
  change (e * 2 ^ 52 + f) / 2 ^ 52 % 2 ^ 11 = e
  omega

lemma toNat_unpackMantissa (h : Fields e f) (hv : v.toNat = e * 2 ^ 52 + f) : (unpackMantissa v).toNat = f := by
  have hf : f < 2 ^ 52 := h.fraction
  simp only [unpackMantissa, BitVec.extractLsb, BitVec.toNat_cast, BitVec.extractLsb'_toNat]
  rw [Nat.shiftRight_eq_div_pow, hv]
  change (e * 2 ^ 52 + f) / 2 ^ 0 % 2 ^ 52 = f
  omega

lemma unpackSign_positive (h : Fields e f) (hv : v.toNat = e * 2 ^ 52 + f) :
    Sign.ofBitVec (unpackSign v) = .positive := by
  have he : e ≤ 2047 := h.exponent
  have hf : f < 2 ^ 52 := h.fraction
  have hzero : unpackSign v = 0#1 := by
    apply BitVec.eq_of_toNat_eq
    simp only [unpackSign, BitVec.extractLsb, BitVec.toNat_cast, BitVec.extractLsb'_toNat]
    rw [Nat.shiftRight_eq_div_pow, hv]
    change (e * 2 ^ 52 + f) / 2 ^ 63 % 2 ^ 1 = 0
    omega
  rw [hzero]
  rfl

end

lemma eq_ofNat_iff {k i : Nat} {v : BitVec k} (hi : i < 2 ^ k) : v = BitVec.ofNat k i ↔ v.toNat = i := by
  rw [← BitVec.toNat_inj, BitVec.toNat_ofNat, Nat.mod_eq_of_lt hi]

/-- A finite number that is not negative is zero or has its significand and exponent. -/
lemma unpack_ofFields (h : Fields e f) (he : e < 2047) :
    (e = 0 ∧ f = 0 ∧ (ofFields false e f).toModel.unpack = .zero .positive) ∨
      (0 < e ∨ 0 < f) ∧ ∃ hpos, (ofFields false e f).toModel.unpack =
        .finite .positive (significand e f) ((max e 1 : Nat) - 1075) hpos := by
  obtain ⟨v, hv⟩ : ∃ v : BitVec Format.binary64.numBits, v = (ofFields false e f).toBits.toBitVec := ⟨_, rfl⟩
  have hbits : (ofFields false e f).toBits.toNat = 0 + e * 2 ^ 52 + f := toBits_ofFields h
  have hnat : v.toNat = e * 2 ^ 52 + f := by
    rw [hv, ← Nat.zero_add (e * 2 ^ 52)]
    exact hbits
  have hunpack : (ofFields false e f).toModel.unpack = UnpackedFloat.unpack Format.binary64 v := by
    rw [hv]
    rfl
  have hexponent := toNat_unpackExponent h hnat
  have hmantissa := toNat_unpackMantissa h hnat
  have hspecial : unpackExponent v ≠ -1#_ := fun h0 => by
    have hall : (unpackExponent v).toNat = 2047 := congrArg BitVec.toNat h0
    omega
  rw [hunpack]
  unfold UnpackedFloat.unpack
  dsimp only
  rw [unpackSign_positive h hnat, if_neg hspecial]
  by_cases he0 : e = 0
  · rw [if_pos ((eq_ofNat_iff (by decide)).2 (hexponent.trans he0))]
    by_cases hf0 : f = 0
    · exact .inl ⟨he0, hf0, dif_pos ((eq_ofNat_iff (by decide)).2 (hmantissa.trans hf0))⟩
    · refine .inr ⟨by omega, ?_⟩
      rw [dif_neg fun h0 => hf0 (hmantissa.symm.trans ((eq_ofNat_iff (by decide)).1 h0))]
      refine finite_congr ?_ ?_
      · rw [hmantissa, significand, if_pos he0]
      · rw [hexponent, he0]
        rfl
  · rw [if_neg fun h0 => he0 (hexponent.symm.trans ((eq_ofNat_iff (by decide)).1 h0))]
    refine .inr ⟨by omega, finite_congr ?_ ?_⟩
    · rw [significand, if_neg he0, ← hmantissa]
      exact (toNat_leading _).1
    · rw [hexponent, max_eq_left (by omega)]
      rfl

/-- The order of two numbers that were taken apart. -/
lemma lt_iff_unpack {x y : Float} : x < y ↔ x.toModel.unpack.compare y.toModel.unpack = some .lt := by
  change (decide (UnpackedFloat.lt x.toModel.unpack y.toModel.unpack = true)) = true ↔ _
  rw [decide_eq_true_eq, UnpackedFloat.lt, beq_iff_eq]

/-- Numbers that are not negative come in the order of their fields. -/
theorem ofFields_lt_iff (h : Fields e f) (h' : Fields e' f') (he : e < 2047) (he' : e' < 2047) :
    ofFields false e f < ofFields false e' f' ↔ e < e' ∨ e = e' ∧ f < f' := by
  rw [lt_iff_unpack]
  have hf : f < 2 ^ 52 := h.fraction
  have hf' : f' < 2 ^ 52 := h'.fraction
  rcases unpack_ofFields h he with ⟨he0, hf0, hx⟩ | ⟨hne, hpos, hx⟩ <;>
    rcases unpack_ofFields h' he' with ⟨he0', hf0', hy⟩ | ⟨hne', hpos', hy⟩ <;> rw [hx, hy]
  · simp [UnpackedFloat.compare, he0, hf0, he0', hf0']
  · simp [UnpackedFloat.compare, he0, hf0]
    omega
  · simp [UnpackedFloat.compare, he0', hf0']
  · simp only [UnpackedFloat.compare, Option.some.injEq, Ordering.then_eq_lt, Int.compare_eq_lt, Int.compare_eq_eq,
      Nat.compare_eq_lt, significand]
    split <;> split <;> omega

lemma isFinite_ofFields (h : Fields e f) (he : e < 2047) : (ofFields false e f).isFinite = true := by
  change (ofFields false e f).toModel.unpack.isFinite = true
  rcases unpack_ofFields h he with ⟨-, -, hx⟩ | ⟨-, hpos, hx⟩
  · rw [hx]
    rfl
  · rw [hx]
    rfl

end

/-! ### Shares -/

/-- A quotient is rounded to more than an even number just when it exceeds that number by more than a half. -/
lemma lt_roundDiv_iff (hb : 0 < b) (hn : n % 2 = 0) : n < roundDiv a b ↔ (2 * n + 1) * b < 2 * a := by
  have ha : b * (a / b) + a % b = a := Nat.div_add_mod a b
  have hr : a % b < b := Nat.mod_lt a hb
  simp only [roundDiv]
  generalize a / b = k at *
  generalize a % b = r at *
  rcases Nat.lt_trichotomy n k with hlt | rfl | hgt
  · have hmul : (n + 1) * b ≤ k * b := Nat.mul_le_mul_right b hlt
    refine iff_of_true (by split <;> omega) ?_
    nlinarith
  · have hodd : (n % 2 == 1) = false := by simp [hn]
    rw [hodd, Bool.and_false, Bool.or_false]
    by_cases hup : b < 2 * r
    · simp only [hup, decide_true, if_true]
      exact iff_of_true (Nat.lt_succ_self n) (by nlinarith)
    · simp only [hup, decide_false, Bool.false_eq_true, if_false]
      exact iff_of_false (Nat.lt_irrefl n) (by nlinarith)
  · have hmul : (k + 1) * b ≤ n * b := Nat.mul_le_mul_right b hgt
    refine iff_of_false (by split <;> omega) ?_
    nlinarith

/-- Whether fields are those of a number above a half. -/
def AboveHalf (e f : Nat) : Prop := 1022 < e ∨ 1022 = e ∧ 0 < f

/-- What is put together in units that are at most a quarter of the last bit of one is at most a half. -/
lemma assemble_small {m : Nat} {q : Int} (hm : m ≤ 2 ^ 53) (hq : q ≤ -54) :
    ∃ e f, Fields e f ∧ e < 2047 ∧ assemble false m q = ofFields false e f ∧ ¬ AboveHalf e f := by
  by_cases hsub : m < twoTo 52
  · refine ⟨0, m, ⟨by omega, hsub, by omega⟩, by omega, ?_, by unfold AboveHalf; omega⟩
    rw [assemble, if_pos hsub]
  rw [assemble, if_neg hsub]
  rw [twoTo_52] at hsub
  by_cases hcarry : twoTo 53 ≤ m
  · rw [twoTo_53] at hcarry
    refine ⟨(q + 1 + 1075).toNat, m / 2 - twoTo 52, ⟨by omega, by rw [twoTo_52]; omega, by omega⟩, by omega, ?_, ?_⟩
    · rw [if_pos (by rw [twoTo_53]; exact hcarry), assemble.assemble', if_neg (by omega)]
    · unfold AboveHalf
      rw [twoTo_52]
      omega
  · rw [twoTo_53] at hcarry
    refine ⟨(q + 1075).toNat, m - twoTo 52, ⟨by omega, by rw [twoTo_52]; omega, by omega⟩, by omega, ?_, ?_⟩
    · rw [if_neg (by rw [twoTo_53]; exact hcarry), assemble.assemble', if_neg (by omega)]
    · unfold AboveHalf
      omega

/-- A share of at least a half, and less than one, is put together of the bits after the point. -/
lemma assemble_share {m : Nat} (hlow : 2 ^ 52 ≤ m) (hhigh : m ≤ 2 ^ 53) :
    ∃ e f, Fields e f ∧ e < 2047 ∧ assemble false m (-53) = ofFields false e f ∧ (AboveHalf e f ↔ 2 ^ 52 < m) := by
  rw [assemble, if_neg (by rw [twoTo_52]; omega)]
  by_cases hcarry : twoTo 53 ≤ m
  · rw [twoTo_53] at hcarry
    obtain rfl : m = 2 ^ 53 := by omega
    exact ⟨1023, 0, ⟨by omega, by decide, by omega⟩, by omega, rfl, iff_of_true (.inl (by decide)) (by decide)⟩
  · rw [twoTo_53] at hcarry
    refine ⟨1022, m - twoTo 52, ⟨by omega, by rw [twoTo_52]; omega, by omega⟩, by omega, ?_, ?_⟩
    · rw [if_neg (by rw [twoTo_53]; exact hcarry), assemble.assemble', if_neg (by omega)]
      rfl
    · unfold AboveHalf
      rw [twoTo_52]
      omega

/-! The exponents of shares: those of less than a half, of at least a half but less than one, and of one. -/

lemma exponentFor_small (ha : 0 < a) (hb : 0 < b) (h : 2 * a < b) : exponentFor a b ≤ -54 := by
  rcases (fits_exponentFor ha hb).above with hlow | hlow
  · omega
  · have hhalf : (a : ℚ) / b < 2 ^ (-1 : Int) := by
      have h' : (2 : ℚ) * a < b := by exact_mod_cast h
      rw [div_lt_iff₀ (by exact_mod_cast hb), zpow_neg_one]
      linarith
    have := (zpow_lt_zpow_iff_right₀ (by norm_num : (1 : ℚ) < 2)).1 (hlow.trans_lt hhalf)
    omega

lemma exponentFor_share (ha : 0 < a) (hlt : a < b) (h : b ≤ 2 * a) : exponentFor a b = -53 := by
  have hb : (0 : ℚ) < b := by exact_mod_cast ha.trans hlt
  refine (fits_exponentFor ha (ha.trans hlt)).unique ⟨by decide, ?_, .inr ?_⟩
  · rw [show (-53 : Int) + 53 = 0 from rfl, zpow_zero, div_lt_one hb]
    exact_mod_cast hlt
  · have h' : (b : ℚ) ≤ 2 * a := by exact_mod_cast h
    rw [show (-53 : Int) + 52 = -1 from rfl, zpow_neg_one, le_div_iff₀ hb]
    linarith

lemma exponentFor_self (ha : 0 < a) : exponentFor a a = -52 := by
  have hone : (a : ℚ) / a = 1 := div_self (by exact_mod_cast ha.ne')
  refine (fits_exponentFor ha ha).unique ⟨by decide, ?_, .inr ?_⟩
  · rw [hone]
    norm_num
  · rw [hone]
    norm_num

/-- A positive share is rounded to a finite number, and above a half when it exceeds a half by more than half a bit. -/
lemma nearest_share (ha : 0 < a) (hab : a ≤ b) : ∃ e f, Fields e f ∧ e < 2047 ∧
    nearest false a b = ofFields false e f ∧ (AboveHalf e f ↔ (2 ^ 53 + 1) * b < 2 ^ 54 * a) := by
  have hb : 0 < b := by omega
  have hround := roundDiv_le_of_fits hb (fits_exponentFor ha hb)
  rw [nearest_eq ha hb]
  by_cases hsmall : 2 * a < b
  · obtain ⟨e, f, hf, he, heq, hnot⟩ := assemble_small hround (exponentFor_small ha hb hsmall)
    exact ⟨e, f, hf, he, heq, iff_of_false hnot (by omega)⟩
  rcases Nat.lt_or_eq_of_le hab with hlt | rfl
  · have hscaled : scaled a b (-53) = (a * 2 ^ 53, b) := rfl
    rw [exponentFor_share ha hlt (not_lt.1 hsmall), hscaled] at hround ⊢
    have hlow : 2 ^ 52 ≤ roundDiv (a * 2 ^ 53) b := by
      have hnear := (roundDiv_near (a * 2 ^ 53) b hb).1
      have hmul : 2 ^ 53 * b ≤ (2 * roundDiv (a * 2 ^ 53) b + 1) * b := by
        rw [Nat.add_mul, Nat.mul_assoc 2]
        omega
      have hle := Nat.le_of_mul_le_mul_right hmul hb
      omega
    obtain ⟨e, f, hf, he, heq, hiff⟩ := assemble_share hlow hround
    refine ⟨e, f, hf, he, heq, hiff.trans ((lt_roundDiv_iff hb (by decide)).trans ?_)⟩
    omega
  · have hscaled : scaled a a (-52) = (2 ^ 52 * a, a) := by
      rw [Nat.mul_comm]
      rfl
    rw [exponentFor_self ha, hscaled, roundDiv_mul_self _ _ ha]
    exact ⟨1023, 0, ⟨by omega, by decide, by omega⟩, by omega, rfl, iff_of_true (.inl (by decide)) (by omega)⟩

/-- **A share of a whole is rounded to more than a half** just when it exceeds a half by more than half a bit. -/
theorem half_lt_nearest_iff (ha : 0 < a) (hab : a ≤ b) :
    0.5 < nearest false a b ↔ (2 ^ 53 + 1) * b < 2 ^ 54 * a := by
  have hhalf : (0.5 : Float) = ofFields false 1022 0 := by decide
  obtain ⟨e, f, hf, he, heq, hiff⟩ := nearest_share ha hab
  rw [hhalf, heq, ofFields_lt_iff ⟨by decide, by decide, by decide⟩ hf (by decide) he]
  exact hiff

lemma isFinite_nearest (ha : 0 < a) (hab : a ≤ b) : (nearest false a b).isFinite = true := by
  obtain ⟨e, f, hf, he, heq, -⟩ := nearest_share ha hab
  rw [heq]
  exact isFinite_ofFields hf he

end Ratchet.Number
