import Mathlib.Data.Nat.Digits.Defs
import Mathlib.Tactic
import Ratchet.Number.Rounding
import Ratchet.Text.Digit

/-!
Decimal digits and the numbers that they denote.
-/

namespace Ratchet

variable {n width : Nat} {ds : List Char}

namespace Text

/-- The digits of a number: the first one is a zero only if it is alone. -/
lemma toDigits_head (h : 0 < n) : ∃ c cs, Nat.toDigits 10 n = c :: cs ∧ c ≠ '0' := by
  induction n using Nat.strong_induction_on with
  | _ n ih =>
    rcases Nat.lt_or_ge n 10 with hn | hn
    · refine ⟨n.digitChar, [], Nat.toDigits_of_lt_base hn, ?_⟩
      have hall : ∀ k < 10, 0 < k → k.digitChar ≠ '0' := by decide
      exact hall n hn h
    · obtain ⟨c, cs, hc, hne⟩ := ih (n / 10) (by omega) (by omega)
      exact ⟨c, cs ++ [(n % 10).digitChar], by rw [Nat.toDigits_of_base_le (by decide) hn, hc]; rfl, hne⟩

lemma isDigit_of_mem_toDigits : ∀ c ∈ Nat.toDigits 10 n, c.isDigit = true := fun _ hc =>
  Nat.isDigit_of_mem_toDigits (by decide) (by decide) hc

/-- The digits of a number denote it. -/
lemma digitsValue_toDigits (n : Nat) : digitsValue (Nat.toDigits 10 n) = n := by
  have hall : ∀ k < 10, (digitValue? k.digitChar).getD 0 = k := by decide
  induction n using Nat.strong_induction_on with
  | _ n ih =>
    rcases Nat.lt_or_ge n 10 with hn | hn
    · rw [Nat.toDigits_of_lt_base hn, ← List.nil_append [n.digitChar], digitsValue_append_singleton,
        hall n hn, digitsValue_nil, Nat.mul_zero, Nat.zero_add]
    · rw [Nat.toDigits_of_base_le (by decide) hn, digitsValue_append_singleton, ih (n / 10) (by omega),
        hall _ (by omega)]
      omega

/-- Zeros in front do not count. -/
lemma digitsValue_zeros (k : Nat) (ds : List Char) :
    digitsValue (List.replicate k '0' ++ ds) = digitsValue ds := by
  have hzero : (digitValue? '0').getD 0 = 0 := by decide
  rw [digitsValue, List.foldl_append]
  congr 1
  induction k with
  | zero => rfl
  | succ k ih => rwa [List.replicate_succ, List.foldl_cons, hzero]

/-- Every zero at the end counts tenfold. -/
lemma digitsValue_append_zeros (ds : List Char) (k : Nat) :
    digitsValue (ds ++ List.replicate k '0') = digitsValue ds * 10 ^ k := by
  have hzero : (digitValue? '0').getD 0 = 0 := by decide
  induction k with
  | zero => rw [List.replicate_zero, List.append_nil, pow_zero, Nat.mul_one]
  | succ k ih =>
    rw [List.replicate_succ', ← List.append_assoc, digitsValue_append_singleton, ih, hzero]
    ring

end Text

namespace Number

lemma digitsValue_padded (width n : Nat) : Text.digitsValue (padded width n) = n := by
  rw [padded, Text.digitsValue_zeros, Text.digitsValue_toDigits]

/-- A number that is not too long fills its places exactly. -/
lemma length_padded (hw : 0 < width) (h : n < 10 ^ width) : (padded width n).length = width := by
  have hlen := Nat.toDigits_length 10 n width hw h
  rw [padded, List.length_append, List.length_replicate]
  omega

lemma isDigit_of_mem_padded : ∀ c ∈ padded width n, c.isDigit = true := by
  intro c hc
  rcases List.mem_append.1 hc with hc | hc
  · rw [List.eq_of_mem_replicate hc]
    rfl
  · exact Text.isDigit_of_mem_toDigits c hc

end Number

end Ratchet
