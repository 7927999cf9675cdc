import Ratchet.Number.Binary64

/-!
Decimals with a chosen number of digits.

A number is rounded to so many places or so many digits, a half going to the even neighbour, and
written with a point, with an exponent, or in whichever way is the shorter one.
-/

namespace Ratchet.Number

/-- The decimal of `n` digits nearest to `m * 2 ^ q`, as its digits and the exponent of the first. -/
def roundedDigits (n m : Nat) (q : Int) : Nat × Int :=
  if m == 0 then (0, 0)
  else
    let e := leadingExponent m q
    let unit : Int := e - n + 1
    let num := m * (if q < 0 then 1 else twoTo q.toNat) * (if unit < 0 then tenTo (-unit).toNat else 1)
    let den := (if q < 0 then twoTo (-q).toNat else 1) * (if unit < 0 then 1 else tenTo unit.toNat)
    let d := roundDiv num den
    if d == tenTo n then (tenTo (n - 1), e + 1) else (d, e)

/-- Digits without the zeros at their end. -/
def dropZeros (cs : List Char) : List Char := (cs.reverse.dropWhile (· == '0')).reverse

/-- A whole part and the places after the point, which stands only when there are some or it is asked
for. -/
def withPoint (point : Bool) (whole places : List Char) : List Char :=
  if places.isEmpty && !point then whole else whole ++ '.' :: places

/-- An exponent with its sign and at least two digits. -/
def exponentText (e : Int) : List Char := 'e' :: (if e < 0 then '-' else '+') :: padded 2 e.natAbs

/-- A number of places, and of digits, beyond which a binary number has zeros only. -/
def enough : Nat := 1100

/-- So many zeros as places are asked for beyond those that can hold anything else. -/
def zerosBeyond (places : Nat) : List Char := List.replicate (places - enough) '0'

/-- The number `m * 2 ^ q` with exactly `places` places; a point may be asked for even if there are none. -/
def positional (point : Bool) (places m : Nat) (q : Int) : List Char :=
  let held := min places enough
  pointed held (scaledDecimal held m q) ++ zerosBeyond places ++ (if point && places == 0 then ['.'] else [])

/-- The number `m * 2 ^ q` with one digit before the point, exactly `places` after it, and an exponent. -/
def scientific (point : Bool) (places m : Nat) (q : Int) : List Char :=
  let held := min places enough
  let (d, e) := roundedDigits (held + 1) m q
  let ds := padded (held + 1) d ++ zerosBeyond places
  withPoint point (ds.take 1) (ds.drop 1) ++ exponentText e

/-- The number `m * 2 ^ q` to `digits` digits, with a point from `10 ^ -4` up to `10 ^ digits` and with an
exponent otherwise. Zeros at the end stand only when `full` asks for them. -/
def general (full : Bool) (digits m : Nat) (q : Int) : List Char :=
  let n := max digits 1
  let held := min n enough
  let (d, e) := roundedDigits held m q
  let ds := padded held d ++ (if full then zerosBeyond n else [])
  let shorten (cs : List Char) : List Char := if full then cs else dropZeros cs
  if e < -4 || n ≤ e then withPoint full (ds.take 1) (shorten (ds.drop 1)) ++ exponentText e
  else if e < 0 then withPoint full ['0'] (shorten (List.replicate (-e - 1).toNat '0' ++ ds))
  else withPoint full (ds.take (e.toNat + 1)) (shorten (ds.drop (e.toNat + 1)))

end Ratchet.Number
