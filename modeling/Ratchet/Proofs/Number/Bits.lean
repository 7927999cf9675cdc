import Mathlib
import Ratchet.Number.Binary64

/-!
Binary numbers and their bits.

A number is its 64 bits: a sign, an exponent field of eleven bits and a fraction field of fifty-two. All words but the
NaNs are kept as they are when a number is put together from them, so a finite number is put together from its parts, and
two numbers of one sign that differ still differ with the other sign.
-/

namespace Ratchet.Number

section

open Float.Model Float.Model.UnpackedFloat

/-- A packed number is packed from its own sign, exponent and mantissa. -/
lemma packComponents_unpack (b : BitVec Format.binary64.numBits) :
    packComponents Format.binary64 (Sign.ofBitVec (unpackSign b)) (unpackExponent b) (unpackMantissa b) = b := by
  have hs : (Sign.ofBitVec (unpackSign b)).toBitVec = unpackSign b := by
    unfold Sign.ofBitVec
    split
    · rename_i h
      exact h.symm
    · rename_i h
      have hlt := (unpackSign b).isLt
      have h0 : (unpackSign b).toNat ≠ 0 := fun h0 => h (BitVec.eq_of_toNat_eq h0)
      apply BitVec.eq_of_toNat_eq
      show 1 = _
      omega
  rw [packComponents, hs]
  apply BitVec.eq_of_getLsbD_eq
  intro i hi
  simp only [unpackSign, unpackExponent, unpackMantissa, BitVec.getLsbD_append, BitVec.getLsbD_cast,
    BitVec.getLsbD_extractLsb]
  by_cases h1 : i < 52
  · simp [h1]
  by_cases h2 : i < 63
  · simp [h1, show i - 52 < 11 by omega]
    rw [show 52 + (i - 52) = i by omega]
  · have h3 : i = 63 := by simp at hi; omega
    subst h3
    simp
    rfl

/-- A mantissa of fifty-two bits with a leading one before it. -/
lemma toNat_leading (b : BitVec 52) : (1#1 ++ b).toNat = 2 ^ 52 + b.toNat ∧ (1#1 ++ b).toNat.log2 = 52 := by
  have hlt := b.isLt
  have htoNat : (1#1 ++ b).toNat = 2 ^ 52 + b.toNat := by
    have hor := Nat.two_pow_add_eq_or_of_lt hlt 1
    rw [Nat.mul_one] at hor
    rw [BitVec.toNat_append, Nat.shiftLeft_eq, hor]
    rfl
  refine ⟨htoNat, ?_⟩
  rw [Nat.log2_eq_iff (by omega), htoNat]
  omega

/-- A packed number that is no NaN comes back when it is unpacked and packed again. -/
lemma pack_unpack (b : BitVec Format.binary64.numBits) (h : unpackExponent b ≠ -1#_ ∨ unpackMantissa b = 0#_) :
    UnpackedFloat.pack Format.binary64 (UnpackedFloat.unpack Format.binary64 b) = b := by
  have hall := packComponents_unpack b
  have hlt : (unpackMantissa b).toNat < 2 ^ 52 := (unpackMantissa b).isLt
  unfold UnpackedFloat.unpack
  dsimp only
  split
  · rename_i he
    have hm := h.resolve_left (not_not_intro he)
    rw [if_pos hm]
    rw [he, hm] at hall
    exact hall
  split
  · rename_i he
    split
    · rename_i hm
      rw [he, hm] at hall
      exact hall
    · rename_i hm
      have h0 : (unpackMantissa b).toNat ≠ 0 := fun h0 => hm (BitVec.eq_of_toNat_eq h0)
      have hlog : (unpackMantissa b).toNat.log2 < 52 := (Nat.log2_lt h0).2 hlt
      rw [UnpackedFloat.pack]
      rw [he] at hall ⊢
      rw [if_neg (by simp [Format.exponentBias]), if_neg (by simp [Format.mantissaBits]; omega), BitVec.ofNat_toNat,
        BitVec.setWidth_eq]
      exact hall
  · rename_i hfin hsub
    have helt : (unpackExponent b).toNat < 2 ^ 11 := (unpackExponent b).isLt
    have hne : (unpackExponent b).toNat ≠ 2047 := fun h0 => hfin (BitVec.eq_of_toNat_eq h0)
    obtain ⟨hm, hlog⟩ := toNat_leading (unpackMantissa b)
    have hbias : ((unpackExponent b).toNat - ((Format.exponentBias Format.binary64 : Nat) + (52 : Nat)) +
        (Format.exponentBias Format.binary64 : Nat) + (52 : Nat) : Int).toNat = (unpackExponent b).toNat := by omega
    have hmant : BitVec.ofNat 52 (2 ^ 52 + (unpackMantissa b).toNat) = unpackMantissa b := by
      apply BitVec.eq_of_toNat_eq
      rw [BitVec.toNat_ofNat, Nat.add_mod_left, Nat.mod_eq_of_lt hlt]
    rw [UnpackedFloat.pack]
    dsimp only
    rw [hbias, if_neg (by show ¬ 2 ^ 11 ≤ _; omega), if_pos (by rw [hlog]; rfl), hm, BitVec.ofNat_toNat,
      BitVec.setWidth_eq, hmant]
    exact hall

/-- The bits of a number that was put together from bits are those bits, unless they are a NaN. -/
lemma toBits_ofBits {u : UInt64} (h : u.toNat / twoTo 52 % 2048 ≠ 2047 ∨ u.toNat % twoTo 52 = 0) :
    (Float.ofBits u).toBits = u := by
  have hpack := pack_unpack u.toBitVec ?_
  · show UInt64.ofBitVec (UnpackedFloat.pack Format.binary64 (UnpackedFloat.unpack Format.binary64 u.toBitVec)) = u
    rw [hpack]
  · rcases h with he | hm
    · refine .inl fun h0 => he ?_
      have hn := congrArg BitVec.toNat h0
      simp only [unpackExponent, BitVec.extractLsb, BitVec.toNat_cast, BitVec.extractLsb'_toNat] at hn
      rw [Nat.shiftRight_eq_div_pow] at hn
      exact hn
    · refine .inr (BitVec.eq_of_toNat_eq ?_)
      simp only [unpackMantissa, BitVec.extractLsb, BitVec.toNat_cast, BitVec.extractLsb'_toNat]
      exact hm

end

variable {x y : Float} {negative : Bool} {e f e' f' m : Nat} {q : Int}

lemma toBits_injective (h : x.toBits = y.toBits) : x = y := by
  obtain ⟨⟨b, hb⟩⟩ := x
  obtain ⟨⟨c, hc⟩⟩ := y
  obtain rfl : b = c := h
  rfl

lemma twoTo_52 : twoTo 52 = 4503599627370496 := rfl

lemma twoTo_53 : twoTo 53 = 9007199254740992 := rfl

lemma twoTo_63 : twoTo 63 = 9223372036854775808 := rfl

/-! ### Fields -/

/-- The fields of a number that is no NaN. -/
structure Fields (e f : Nat) : Prop where
  exponent : e ≤ 2047
  fraction : f < twoTo 52
  number : e = 2047 → f = 0

lemma toBits_ofFields (h : Fields e f) :
    (ofFields negative e f).toBits.toNat = (if negative then twoTo 63 else 0) + e * twoTo 52 + f := by
  obtain ⟨he, hf, hn⟩ := h
  rw [twoTo_52] at hf
  have hlt : (if negative then twoTo 63 else 0) + e * twoTo 52 + f < 2 ^ 64 := by
    rw [twoTo_52, twoTo_63]
    split <;> omega
  have hnat : (UInt64.ofNat ((if negative then twoTo 63 else 0) + e * twoTo 52 + f)).toNat =
      (if negative then twoTo 63 else 0) + e * twoTo 52 + f := by
    rw [UInt64.toNat_ofNat', Nat.mod_eq_of_lt hlt]
  rw [ofFields, toBits_ofBits, hnat]
  rw [hnat, twoTo_52, twoTo_63]
  split <;> omega

/-- Numbers with the same fields are the same but for their signs. -/
lemma ofFields_inj (h : Fields e f) (h' : Fields e' f') (heq : ofFields negative e f = ofFields negative e' f') :
    e = e' ∧ f = f' := by
  have hbits : (ofFields negative e f).toBits.toNat = _ := toBits_ofFields h
  rw [heq, toBits_ofFields h'] at hbits
  have hf := h.fraction
  have hf' := h'.fraction
  rw [twoTo_52] at hbits hf hf'
  omega

/-- A number that is no NaN has the fields of its bits. -/
lemma ofFields_eq (h : Fields e f) (hx : x.toBits.toNat = (if negative then twoTo 63 else 0) + e * twoTo 52 + f) :
    ofFields negative e f = x := by
  apply toBits_injective
  apply UInt64.toNat_inj.1
  rw [toBits_ofFields h, hx]

/-! ### Parts -/

/-- The parts of a finite number: fifty-three bits with the first one set, or fewer with the least exponent. -/
structure Canonical (m : Nat) (q : Int) : Prop where
  mantissa : m < 2 ^ 53
  least : -1074 ≤ q
  greatest : q ≤ 971
  leading : q = -1074 ∨ 2 ^ 52 ≤ m

/-- The fields that a number is put together with are the same with both signs. -/
lemma assemble_fields (hm : m ≤ 2 ^ 53) :
    ∃ e f, Fields e f ∧ ∀ negative, assemble negative m q = ofFields negative e f := by
  have hnormal : ∀ {m : Nat} {q : Int}, 2 ^ 52 ≤ m → m < 2 ^ 53 →
      ∃ e f, Fields e f ∧ ∀ negative, assemble.assemble' negative m q = ofFields negative e f := by
    intro m q hlow hhigh
    by_cases hq : 971 < q
    · refine ⟨2047, 0, ⟨le_refl _, by decide, fun _ => rfl⟩, fun negative => ?_⟩
      rw [assemble.assemble', if_pos hq]
    · refine ⟨(q + 1075).toNat, m - twoTo 52, ⟨by omega, by rw [twoTo_52]; omega, by omega⟩, fun negative => ?_⟩
      rw [assemble.assemble', if_neg hq]
  by_cases hsub : m < twoTo 52
  · refine ⟨0, m, ⟨by omega, hsub, by omega⟩, fun negative => ?_⟩
    rw [assemble, if_pos hsub]
  rw [twoTo_52] at hsub
  by_cases hcarry : m < 2 ^ 53
  · obtain ⟨e, f, hf, heq⟩ := hnormal (q := q) (by omega) hcarry
    refine ⟨e, f, hf, fun negative => ?_⟩
    rw [assemble, if_neg (by rw [twoTo_52]; omega), if_neg (by rw [twoTo_53]; omega), heq]
  · obtain ⟨e, f, hf, heq⟩ := hnormal (m := m / 2) (q := q + 1) (by omega) (by omega)
    refine ⟨e, f, hf, fun negative => ?_⟩
    rw [assemble, if_neg (by rw [twoTo_52]; omega), if_pos (by rw [twoTo_53]; omega), heq]

/-- **A finite number is put together from its parts.** -/
theorem assemble_parts (h : parts x = .finite negative m q) : assemble negative m q = x ∧ Canonical m q := by
  have hlt := x.toBits.toNat_lt
  have hfields : ∀ {negative e f}, Fields e f →
      x.toBits.toNat = (if negative then twoTo 63 else 0) + e * twoTo 52 + f → ofFields negative e f = x :=
    fun hf hx => ofFields_eq hf hx
  simp only [parts] at h
  generalize x.toBits.toNat = b at h hlt hfields
  have hbits : b = (if (b / twoTo 63 == 1) = true then twoTo 63 else 0) + b / twoTo 52 % 2048 * twoTo 52 +
      b % twoTo 52 := by
    rw [twoTo_52, twoTo_63]
    split
    · rename_i hs
      rw [beq_iff_eq] at hs
      omega
    · rename_i hs
      rw [beq_iff_eq] at hs
      omega
  have hfrac : b % twoTo 52 < twoTo 52 := Nat.mod_lt _ (by decide)
  split at h
  · split at h <;> exact absurd h nofun
  rename_i hfin
  rw [beq_iff_eq] at hfin
  have hx := hfields ⟨by omega, hfrac, by omega⟩ hbits
  rw [twoTo_52] at hfrac
  split at h
  · rename_i hsub
    obtain ⟨rfl, rfl, rfl⟩ := Parts.finite.inj h
    rw [beq_iff_eq] at hsub
    refine ⟨?_, by rw [twoTo_52]; omega, le_refl _, by omega, .inl rfl⟩
    rwa [assemble, if_pos (by rw [twoTo_52]; omega), ← hsub]
  · rename_i hnormal
    obtain ⟨rfl, rfl, rfl⟩ := Parts.finite.inj h
    rw [beq_iff_eq] at hnormal
    refine ⟨?_, by rw [twoTo_52]; omega, by omega, by omega, .inr (by rw [twoTo_52]; omega)⟩
    rwa [assemble, if_neg (by omega), if_neg (by rw [twoTo_52, twoTo_53]; omega), assemble.assemble', if_neg (by omega),
      Nat.add_sub_cancel,
      show (((b / twoTo 52 % 2048 : Nat) : Int) - 1075 + 1075).toNat = b / twoTo 52 % 2048 by omega]

end Ratchet.Number
