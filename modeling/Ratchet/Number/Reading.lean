import Ratchet.Number.Binary64
import Ratchet.Text.Blank
import Ratchet.Text.Digit
import Ratchet.Text.Quoted

/-!
Numbers read from text.

Whole numbers and decimals are read with white space around them and with a low line between digits. The
digits of every script count where the reader says so.
-/

namespace Ratchet.Number

/-- A sign and what follows it. -/
def sign (s : List Char) : Bool × List Char :=
  match s with
  | '-' :: r => (true, r)
  | '+' :: r => (false, r)
  | _ => (false, s)

/-- The text without its low lines, when each stands between two other characters. -/
def dropLowLines? (s : List Char) : Option (List Char) :=
  go true s
where
  /-- `edge` tells whether a low line may not come next. -/
  go (edge : Bool) : List Char → Option (List Char)
    | [] => if edge then none else some []
    | '_' :: r => if edge then none else go true r
    | c :: r => (go false r).map (c :: ·)

/-- A number with the sign applied. -/
def signed (negative : Bool) (n : Nat) : Int := if negative then -n else n

/-- The number of digits that a whole number may have. -/
def maxDigits : Nat := 4300

/-- Why a text is no whole number. -/
inductive Misread
  /-- The text is written in another way. -/
  | notWhole
  /-- The text has too many digits: so many. -/
  | tooLong (digits : Nat)
  deriving DecidableEq, Repr

/-- What is said of a whole number with too many digits. -/
def longText (digits : Nat) : String :=
  "Exceeds the limit (4300 digits) for integer string conversion: value has " ++ toString digits ++
    " digits; use sys.set_int_max_str_digits() to increase the limit"

/-- Whether a whole number is short enough to be written. -/
def isWritable (n : Int) : Bool := (Nat.toDigits 10 n.natAbs).length ≤ maxDigits

/-- What is said of a whole number that is too long to be written. -/
def unwritableText : String :=
  "Exceeds the limit (4300 digits) for integer string conversion; use sys.set_int_max_str_digits() to increase the limit"

/-- What is said of a text that is no whole number to the given base. -/
def notWholeText (base : Nat) (s : String) : String :=
  "invalid literal for int() with base " ++ toString base ++ ": " ++
    String.ofList ((Text.quoted s).toList.take 200)

namespace Misread

/-- What is said of a text that is no whole number to the given base. -/
def text (base : Nat) (s : String) : Misread → String
  | notWhole => notWholeText base s
  | tooLong digits => longText digits

end Misread

/-- The value of a digit to a base up to sixteen: a decimal digit of any script, or a letter. -/
def digitIn? (base : Nat) (c : Char) : Option Nat :=
  let value? :=
    if 'a' ≤ c && c ≤ 'f' then some (c.toNat - 0x61 + 10)
    else if 'A' ≤ c && c ≤ 'F' then some (c.toNat - 0x41 + 10)
    else Text.digitValue? c
  value?.filter (· < base)

/-- The digits at the start of a text without the low lines between them, and the rest; nothing when
a low line stands elsewhere or no digit is there. -/
def digitRun? (base : Nat) (s : List Char) : Option (List Nat × List Char) :=
  go true s
where
  /-- `edge` tells whether a digit has to come next. -/
  go (edge : Bool) : List Char → Option (List Nat × List Char)
    | [] => if edge then none else some ([], [])
    | '_' :: r => if edge then none else go true r
    | c :: r =>
      match digitIn? base c with
      | some d => (go false r).map fun (ds, t) => (d :: ds, t)
      | none => if edge then none else some ([], c :: r)

/-- The letters that may follow a zero in front of the digits to a base. -/
def baseMarks : Nat → List Char
  | 2 => ['b', 'B']
  | 8 => ['o', 'O']
  | 16 => ['x', 'X']
  | _ => []

/-- The text without the mark of its base. One low line may follow the mark. -/
def dropBaseMark (base : Nat) (s : List Char) : List Char :=
  match s with
  | '0' :: m :: r =>
    if (baseMarks base).contains m then (match r with
      | '_' :: t => t
      | _ => r)
    else s
  | _ => s

/-- A whole number to a base, with low lines between its digits and white space around it. Only the
digits to base ten are counted. -/
def readWhole (base : Nat) (s : String) : Except Misread Int :=
  let (negative, r) := sign (s.toList.dropWhile Text.isSpace)
  match digitRun? base (dropBaseMark base r) with
  | none => .error .notWhole
  | some (ds, rest) =>
    if base == 10 && maxDigits < ds.length then .error (.tooLong ds.length)
    else if rest.all Text.isSpace then .ok (signed negative (ds.foldl (fun n d => base * n + d) 0))
    else .error .notWhole

/-- A decimal whole number. -/
def readInt (s : String) : Except Misread Int := readWhole 10 s

/-- A decimal without its sign: digits, an optional point, an optional exponent. -/
def decimal? (negative : Bool) (s : List Char) : Option Float :=
  let whole := s.takeWhile Text.isDigit
  let r := s.dropWhile Text.isDigit
  let (frac, r) := match r with
    | '.' :: t => (t.takeWhile Text.isDigit, t.dropWhile Text.isDigit)
    | _ => ([], r)
  if whole.isEmpty && frac.isEmpty then none
  else
    let value (e : Int) := ofDecimal negative (Text.digitsValue (whole ++ frac)) (e - frac.length)
    match r with
    | [] => some (value 0)
    | c :: t =>
      if c == 'e' || c == 'E' then
        let (down, ds) := sign t
        if !ds.isEmpty && ds.all Text.isDigit then some (value (signed down (Text.digitsValue ds)))
        else none
      else none

/-- A decimal, or one of the words for infinity and for what is not a number. -/
def floatOf? (s : List Char) : Option Float :=
  let (negative, r) := sign s
  let word := String.ofList (r.map Char.toLower)
  if word == "inf" || word == "infinity" then some (ofFields negative 2047 0)
  else if word == "nan" then some (ofFields negative 2047 (twoTo 51))
  else decimal? negative r

/-- A decimal with white space around it and low lines between its digits. -/
def readFloat? (s : String) : Option Float :=
  let t := Text.trimWhile Text.isSpace s.toList
  if t.contains '_' then
    let lone := (t.zip (t.drop 1)).any fun (a, b) => (a == '_') && !Text.isDigit b
    let led := (t.zip (t.drop 1)).any fun (a, b) => (b == '_') && !Text.isDigit a
    if lone || led || t.head? == some '_' || t.getLast? == some '_' then none
    else floatOf? (t.filter (· != '_'))
  else floatOf? t

end Ratchet.Number
