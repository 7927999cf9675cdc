/-!
Rounding a quotient of natural numbers, and writing numbers in digits.

A quotient is rounded to the nearest whole number, a half to the even one. `roundDiv_near` bounds the
error by a half.
-/

namespace Ratchet.Number

/-- A power of two. -/
def twoTo (k : Nat) : Nat := Nat.pow 2 k

/-- A power of ten. -/
def tenTo (k : Nat) : Nat := Nat.pow 10 k

/-- The whole number nearest to `num / den`, the even one of two. -/
def roundDiv (num den : Nat) : Nat :=
  let q := num / den
  let r := num % den
  if den < 2 * r || (2 * r == den && q % 2 == 1) then q + 1 else q

/-- The rounded quotient is at most a half away. -/
theorem roundDiv_near (num den : Nat) (h : 0 < den) :
    2 * num ≤ 2 * (roundDiv num den * den) + den ∧ 2 * (roundDiv num den * den) ≤ 2 * num + den := by
  have e : den * (num / den) + num % den = num := Nat.div_add_mod num den
  have l : num % den < den := Nat.mod_lt _ h
  have e' : num / den * den = den * (num / den) := Nat.mul_comm _ _
  simp only [roundDiv]
  split
  · rename_i hc
    simp only [Bool.or_eq_true, decide_eq_true_eq, Bool.and_eq_true, beq_iff_eq] at hc
    rw [Nat.add_mul, e']
    omega
  · rename_i hc
    simp only [Bool.or_eq_true, decide_eq_true_eq, Bool.and_eq_true, beq_iff_eq] at hc
    rw [e']
    omega

/-- A whole quotient is not changed. -/
theorem roundDiv_mul_self (n den : Nat) (h : 0 < den) : roundDiv (n * den) den = n := by
  simp [roundDiv, Nat.mul_div_cancel n h]
  omega

/-- The decimal digits of `n`, padded with zeros to `width`. -/
def padded (width n : Nat) : List Char :=
  let ds := Nat.toDigits 10 n
  List.replicate (width - ds.length) '0' ++ ds

/-- The number `n / 10 ^ places` with exactly that many places. -/
def pointed (places n : Nat) : List Char :=
  let ds := padded (places + 1) n
  if places == 0 then ds
  else ds.take (ds.length - places) ++ '.' :: ds.drop (ds.length - places)

end Ratchet.Number
