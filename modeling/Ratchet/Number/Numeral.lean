import Ratchet.Number.Reading

/-!
Whole numbers as documents spell them.

A numeral is a minus sign, if there is one, and digits without a zero in front. A spelling may have more
than its numeral: white space around it, a plus sign, zeros in front of it, a fraction of zeros, and low
lines between other characters. A numeral that takes more characters than a whole number may have digits
is too long, whatever follows it.
-/

namespace Ratchet.Number

/-- What comes of a text that is to be a whole number. -/
inductive Numeral
  | value (n : Int)
  | tooLong
  | unreadable
  deriving DecidableEq, Repr

namespace Numeral

/-- The digits that a number of more than one digit starts with. -/
def isLeading (c : Char) : Bool := c.isDigit && c != '0'

/-- Reads a numeral. -/
def read (s : List Char) : Numeral :=
  let negative := s.head? == some '-'
  let r := if negative then s.drop 1 else s
  let ds := r.takeWhile Char.isDigit
  if r == ['0'] then .value 0
  else if !(r.head?.any isLeading) then .unreadable
  else if maxDigits < ds.length + (if negative then 1 else 0) then .tooLong
  else if ds.length == r.length then .value (signed negative (Text.digitsValue ds))
  else .unreadable

/-- What follows zeros and low lines; `last` is the one that was passed last. It stays before a point and
when nothing follows. -/
def afterZeros? (last : Char) : List Char → Option (List Char)
  | [] => some [last]
  | c :: s =>
    if c == '0' || c == '_' then afterZeros? c s
    else if c == '.' then some (last :: c :: s)
    else if c == '-' || isLeading c then some (c :: s)
    else none

/-- A spelling without the zeros in front. -/
def dropZeros? : List Char → Option (List Char)
  | [] => none
  | c :: s =>
    if c == '0' then afterZeros? c s
    else if c == '-' || isLeading c then some (c :: s)
    else none

/-- A spelling without a fraction of zeros. -/
def dropFraction (s : List Char) : List Char :=
  let fraction := (s.dropWhile (· != '.')).drop 1
  if !fraction.isEmpty && fraction.all (· == '0') then s.takeWhile (· != '.') else s

/-- A spelling without its plus sign, which no minus sign may follow. -/
def dropPlus? : List Char → Option (List Char)
  | '+' :: s => if s.head? == some '-' then none else some s
  | s => some s

/-- The numeral of a spelling, if there can be one. -/
def ofSpelling? (s : List Char) : Option (List Char) := do
  let s ← dropPlus? (Text.trimWhile Text.isSpace s)
  let s := dropFraction (← dropZeros? s)
  return (dropLowLines? s).getD s

/-- Reads a spelling. -/
def readSpelling (s : List Char) : Numeral :=
  match read s with
  | .unreadable => (ofSpelling? s).elim .unreadable read
  | r => r

end Numeral

end Ratchet.Number
