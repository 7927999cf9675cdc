import Ratchet.Number.Rounding

/-!
Binary floating-point numbers as text.

A finite number is a whole multiple of a power of two, so every step from and to decimals is exact
arithmetic on natural numbers followed by one rounding. The shortest text of a number has the fewest
digits that read back as the number.
-/

namespace Ratchet.Number

/-- A number taken apart: `m * 2 ^ q` with a sign, or one of the special values. -/
inductive Parts
  | nan
  | infinite (negative : Bool)
  | finite (negative : Bool) (m : Nat) (q : Int)
  deriving DecidableEq, Repr

/-- Takes a number apart. -/
def parts (x : Float) : Parts :=
  let b := x.toBits.toNat
  let negative := b / twoTo 63 == 1
  let e : Nat := b / twoTo 52 % 2048
  let f := b % twoTo 52
  if e == 2047 then (if f == 0 then .infinite negative else .nan)
  else if e == 0 then .finite negative f (-1074)
  else .finite negative (f + twoTo 52) ((e : Int) - 1075)

/-- The number with the given sign, exponent field and fraction field. -/
def ofFields (negative : Bool) (e f : Nat) : Float :=
  Float.ofBits (UInt64.ofNat ((if negative then twoTo 63 else 0) + e * twoTo 52 + f))

/-- The number `m * 2 ^ q`, where `m` has at most 53 bits and `q` is at least -1074. -/
def assemble (negative : Bool) (m : Nat) (q : Int) : Float :=
  if m < twoTo 52 then ofFields negative 0 m
  else if twoTo 53 ≤ m then assemble' negative (m / 2) (q + 1)
  else assemble' negative m q
where
  /-- As above, for `m` of exactly 53 bits. -/
  assemble' (negative : Bool) (m : Nat) (q : Int) : Float :=
    if 971 < q then ofFields negative 2047 0
    else ofFields negative (q + 1075).toNat (m - twoTo 52)

/-- The number nearest to `num / den`, the even one of two; too large a quotient is infinite. -/
def nearest (negative : Bool) (num den : Nat) : Float :=
  if num == 0 || den == 0 then ofFields negative 0 0
  else
    let scaled (q : Int) : Nat × Nat :=
      if q < 0 then (num * twoTo (-q).toNat, den) else (num, den * twoTo q.toNat)
    let q₀ : Int := max ((Nat.log2 num : Int) - Nat.log2 den - 53) (-1074)
    let (a, b) := scaled q₀
    let q := if twoTo 53 ≤ a / b then q₀ + 1 else q₀
    let (a, b) := scaled q
    assemble negative (roundDiv a b) q

/-- The number nearest to `digits * 10 ^ exponent`. -/
def ofDecimal (negative : Bool) (digits : Nat) (exponent : Int) : Float :=
  let size : Int := (Nat.toDigits 10 digits).length + exponent
  if digits == 0 || size < -400 then ofFields negative 0 0
  else if 400 < size then ofFields negative 2047 0
  else if exponent < 0 then nearest negative digits (tenTo (-exponent).toNat)
  else nearest negative (digits * tenTo exponent.toNat) 1

/-- The number nearest to a whole number. -/
def ofInt (n : Int) : Float := nearest (n < 0) n.natAbs 1

/-- The number nearest to a quotient of whole numbers, if it is finite. -/
def quotient? (a b : Int) : Option Float :=
  let x := nearest ((a < 0) != (b < 0) && a != 0) a.natAbs b.natAbs
  if x.isFinite then some x else none

/-- The whole number nearest to `m * 2 ^ q * 10 ^ places`. -/
def scaledDecimal (places m : Nat) (q : Int) : Nat :=
  if q < 0 then roundDiv (m * tenTo places) (twoTo (-q).toNat) else m * tenTo places * twoTo q.toNat

/-- The text with exactly `places` places, a half going to the even neighbour. -/
def fixed (places : Nat) (x : Float) : String :=
  match parts x with
  | .nan => "nan"
  | .infinite negative => if negative then "-inf" else "inf"
  | .finite negative m q =>
    let t := pointed places (scaledDecimal places m q)
    String.ofList (if negative then '-' :: t else t)

/-- The number rounded to `places` decimal places. -/
def roundTo (places : Nat) (x : Float) : Float :=
  match parts x with
  | .finite negative m q => nearest negative (scaledDecimal places m q) (tenTo places)
  | _ => x

/-- The whole part of a finite number, towards zero. -/
def truncate? (x : Float) : Option Int :=
  match parts x with
  | .finite negative m q =>
    let n : Nat := if q < 0 then m / twoTo (-q).toNat else m * twoTo q.toNat
    some (if negative then -n else n)
  | _ => none

/-- The value of a finite number that is whole. -/
def whole? (x : Float) : Option Int :=
  match parts x with
  | .finite negative m q =>
    if q < 0 && m % twoTo (-q).toNat != 0 then none
    else
      let n : Nat := if q < 0 then m / twoTo (-q).toNat else m * twoTo q.toNat
      some (if negative then -n else n)
  | _ => none

/-- The decimal exponent of the first digit of `m * 2 ^ q`, for positive `m`. -/
def leadingExponent (m : Nat) (q : Int) : Int :=
  let shift : Nat := 330
  let n := if q < 0 then m * tenTo shift / twoTo (-q).toNat else m * tenTo shift * twoTo q.toNat
  ((Nat.toDigits 10 n).length : Int) - 1 - shift

/-- The decimal of `n` digits next to `m * 2 ^ q` that reads back, as digits and exponent of the last
digit; of two that do, the nearer. -/
def shortOn? (m : Nat) (q e : Int) (n : Nat) : Option (Nat × Int) :=
  let unit : Int := e - n + 1
  let (num, den) : Nat × Nat :=
    (m * (if q < 0 then 1 else twoTo q.toNat) * (if unit < 0 then tenTo (-unit).toNat else 1),
      (if q < 0 then twoTo (-q).toNat else 1) * (if unit < 0 then 1 else tenTo unit.toNat))
  let low := num / den
  let x := assemble false m q
  let good (d : Nat) : Bool := 0 < d && (ofDecimal false d unit).toBits == x.toBits
  let best := roundDiv num den
  if good best then some (best, unit)
  else if good low then some (low, unit)
  else if good (low + 1) then some (low + 1, unit)
  else none

/-- The fewest digits that read back, with the exponent of the last of them. -/
def shortDigits (m : Nat) (q : Int) : Nat × Int :=
  let e := leadingExponent m q
  ((List.range 17).findSome? fun n => shortOn? m q e (n + 1)).getD (0, 0)

/-- Digits without their trailing zeros; the exponent grows with each that goes. -/
def stripZeros (fuel digits : Nat) (unit : Int) : Nat × Int :=
  match fuel with
  | 0 => (digits, unit)
  | fuel + 1 =>
    if digits != 0 && digits % 10 == 0 then stripZeros fuel (digits / 10) (unit + 1) else (digits, unit)

/-- The decimal `digits * 10 ^ unit`: positional from `10 ^ -4` up to `10 ^ 16`, always with a point,
and otherwise with an exponent of at least two digits. -/
def writeDecimal (digits : Nat) (unit : Int) : List Char :=
  let ds := Nat.toDigits 10 digits
  let e : Int := unit + ds.length - 1
  if -4 ≤ e && e < 16 then
    if e < 0 then '0' :: '.' :: (List.replicate (-e - 1).toNat '0' ++ ds)
    else
      let k := e.toNat + 1
      if ds.length ≤ k then ds ++ List.replicate (k - ds.length) '0' ++ ['.', '0']
      else ds.take k ++ '.' :: ds.drop k
  else
    let mantissa := match ds with
      | [] => []
      | [d] => [d]
      | d :: r => d :: '.' :: r
    mantissa ++ 'e' :: (if e < 0 then '-' else '+') :: padded 2 e.natAbs

/-- The shortest text that reads back as the number. -/
def shortest (x : Float) : String :=
  match parts x with
  | .nan => "nan"
  | .infinite negative => if negative then "-inf" else "inf"
  | .finite negative m q =>
    let t :=
      if m == 0 then ['0', '.', '0']
      else
        let (d, u) := shortDigits m q
        let (d, u) := stripZeros 400 d u
        writeDecimal d u
    String.ofList (if negative then '-' :: t else t)

/-- A share of one in percent, with `places` places. -/
def percent (places : Nat) (x : Float) : String := fixed places (x * 100) ++ "%"

end Ratchet.Number
