import Ratchet.Datum
import Ratchet.Number.Reading
import Ratchet.Text.Letter
import Ratchet.Text.Search
import Ratchet.Yaml.Cursor

/-!
What a plain text denotes.

A plain text may be a truth value, a number, nothing, or a date; every other text denotes itself.
Numbers may have low lines between digits, a base, or groups of sixty.
-/

namespace Ratchet.Yaml

/-- What a node denotes. -/
inductive Tag
  | null
  | bool
  | int
  | float
  | timestamp
  | text
  | binary
  | list
  | pairs
  | set
  | map
  /-- A key that merges the entries of other mappings. -/
  | merge
  /-- A key whose value stands for the whole mapping where a text is asked for. -/
  | defaultValue
  | unknown
  deriving DecidableEq, Repr, Inhabited

namespace Tag

/-- Whether a node with the tag denotes a collection, which is no key. -/
def isCollection : Tag → Bool
  | list | pairs | set | map => true
  | _ => false

/-- The start of the names that every document knows. -/
def core : String := "tag:yaml.org,2002:"

/-- The names of the tags that are written out, without their common start. -/
def names : List (String × Tag) :=
  [("null", null), ("bool", bool), ("int", int), ("float", float), ("timestamp", timestamp), ("str", text),
    ("binary", binary), ("seq", list), ("omap", pairs), ("pairs", pairs), ("set", set), ("map", map),
    ("merge", merge), ("value", defaultValue)]

/-- The tag with a name. -/
def ofName (s : String) : Tag :=
  match Text.dropStart? core.toList s.toList with
  | some r => (names.lookup (String.ofList r)).getD unknown
  | none => unknown

end Tag

namespace Plain

/-- A digit or a low line. -/
def isSpaced (c : Char) : Bool := c.isDigit || c == '_'

/-- The text after an optional sign. -/
def unsigned (s : List Char) : List Char := (Number.sign s).2

/-- Groups of one or two digits below sixty, each after a colon, and the rest. -/
def sixties (fuel : Nat) (s : List Char) : Nat × List Char :=
  match fuel with
  | 0 => (0, s)
  | fuel + 1 =>
    match s with
    | ':' :: a :: b :: r =>
      if '0' ≤ a && a ≤ '5' && b.isDigit then
        let (n, t) := sixties fuel r
        (n + 1, t)
      else if a.isDigit then
        let (n, t) := sixties fuel (b :: r)
        (n + 1, t)
      else (0, s)
    | [':', a] => if a.isDigit then (1, []) else (0, s)
    | _ => (0, s)

/-- Whether an exponent with a sign, or nothing, takes up the text. -/
def isExponent (s : List Char) : Bool :=
  match s with
  | [] => true
  | e :: sign :: ds => (e == 'e' || e == 'E') && (sign == '-' || sign == '+') && !ds.isEmpty && ds.all Char.isDigit
  | _ => false

/-- The texts of decimal numbers. -/
def isFloat (s : List Char) : Bool :=
  let u := unsigned s
  let pointed := match u with
    | d :: _ =>
      d.isDigit && match u.dropWhile isSpaced with
        | '.' :: r => isExponent (r.dropWhile isSpaced)
        | _ => false
    | [] => false
  let fraction := match s with
    | '.' :: d :: r => d.isDigit && isExponent (r.dropWhile isSpaced)
    | _ => false
  let sixty := match u with
    | d :: _ =>
      d.isDigit && match sixties s.length (u.dropWhile isSpaced) with
        | (n, '.' :: r) => 0 < n && r.all isSpaced
        | _ => false
    | [] => false
  let word := String.ofList u
  pointed || fraction || sixty || [".inf", ".Inf", ".INF"].contains word ||
    [".nan", ".NaN", ".NAN"].contains (String.ofList s)

/-- The texts of whole numbers. -/
def isInt (s : List Char) : Bool :=
  match unsigned s with
  | '0' :: 'b' :: r => !r.isEmpty && r.all fun c => c == '0' || c == '1' || c == '_'
  | '0' :: 'x' :: r =>
    !r.isEmpty && r.all fun c => c.isDigit || ('a' ≤ c && c ≤ 'f') || ('A' ≤ c && c ≤ 'F') || c == '_'
  | ['0'] => true
  | '0' :: r => r.all fun c => ('0' ≤ c && c ≤ '7') || c == '_'
  | d :: r =>
    d.isDigit && match r.dropWhile isSpaced with
      | [] => true
      | t => match sixties s.length t with
        | (_, []) => true
        | _ => false
  | [] => false

/-- One or two digits at the start, with their value and the rest. -/
def twoDigits? (s : List Char) : Option (Nat × List Char) :=
  let ds := (s.takeWhile Char.isDigit).take 2
  if ds.isEmpty then none else some (Text.digitsValue ds, s.drop ds.length)

/-- Exactly `n` digits at the start, with their value and the rest. -/
def digits? (n : Nat) (s : List Char) : Option (Nat × List Char) :=
  let ds := s.take n
  if ds.length == n && ds.all Char.isDigit then some (Text.digitsValue ds, s.drop n) else none

/-- The rest after one character. -/
def after? (c : Char) : List Char → Option (List Char)
  | x :: r => if x == c then some r else none
  | [] => none

/-- A date, and a time with fraction and offset in seconds if there is one. -/
structure Stamp where
  year : Nat
  month : Nat
  day : Nat
  time : Option (Nat × Nat × Nat × List Char × Option (Option Int))
  deriving Repr

/-- The offset at the end of a time: none, universal time, or hours and minutes. -/
def offset? (s : List Char) : Option (Option (Option Int)) :=
  match s with
  | [] => some none
  | _ =>
    match s.dropWhile fun c => c == ' ' || c == '\t' with
    | ['Z'] => some (some (some 0))
    | c :: r =>
      if c == '+' || c == '-' then do
        let (h, r) ← twoDigits? r
        let m ← match r with
          | [] => some 0
          | ':' :: t => match digits? 2 t with
            | some (m, []) => some m
            | _ => none
          | _ => none
        let n : Int := h * 3600 + m * 60
        return some (some (if c == '-' then -n else n))
      else none
    | [] => none

/-- Whether a text is a year, a month and a day in all their digits. -/
def isFullDate (s : List Char) : Bool :=
  s.length == 10 && (s.drop 4).head? == some '-' && (s.drop 7).head? == some '-'

/-- The stamp that a text spells. -/
def stamp? (s : List Char) : Option Stamp := do
  let (y, r) ← digits? 4 s
  let r ← after? '-' r
  let (m, r) ← twoDigits? r
  let r ← after? '-' r
  let (d, r) ← twoDigits? r
  if r.isEmpty then return ⟨y, m, d, none⟩
  else
    let r ← match r with
      | 'T' :: t | 't' :: t => some t
      | c :: _ =>
        if c == ' ' || c == '\t' then some (r.dropWhile fun c => c == ' ' || c == '\t') else none
      | [] => none
    let (h, r) ← twoDigits? r
    let r ← after? ':' r
    let (mi, r) ← digits? 2 r
    let r ← after? ':' r
    let (sec, r) ← digits? 2 r
    let (frac, r) := match r with
      | '.' :: t => (t.takeWhile Char.isDigit, t.dropWhile Char.isDigit)
      | _ => ([], r)
    let offset ← offset? r
    return ⟨y, m, d, some (h, mi, sec, frac, offset)⟩

/-- Whether a text is a date or a date and a time. A date alone has all its digits. -/
def isStamp (s : List Char) : Bool :=
  match stamp? s with
  | some stamp => stamp.time.isSome || isFullDate s
  | none => false

/-- The text without a line feed at its end. -/
def lessFeed (s : List Char) : List Char := if s.getLast? == some '\n' then s.dropLast else s

/-- What a text without a tag denotes. A line feed at its end does not count. -/
def tag (t : String) : Tag :=
  let s := lessFeed t.toList
  let u := String.ofList s
  if ["yes", "Yes", "YES", "no", "No", "NO", "true", "True", "TRUE", "false", "False", "FALSE", "on",
      "On", "ON", "off", "Off", "OFF"].contains u then .bool
  else if isFloat s then .float
  else if isInt s then .int
  else if u == "<<" then .merge
  else if t.isEmpty || ["~", "null", "Null", "NULL"].contains u then .null
  else if isStamp s then .timestamp
  else if u == "=" then .defaultValue
  else if ["!", "&", "*"].contains u then .unknown
  else .text

/-! ## Values -/

/-- The value of a text, or why it has none. -/
abbrev Spelled := Except NoValue Datum

/-- The truth value of a word. -/
def boolValue (t : String) : Spelled :=
  let w := String.ofList (Text.lowered t.toList)
  if ["yes", "true", "on"].contains w then .ok (.bool true)
  else if ["no", "false", "off"].contains w then .ok (.bool false)
  else .error (.unknownWord w)

/-- A whole number to a base. -/
def whole (base : Nat) (s : List Char) : Except NoValue Int :=
  (Number.readWhole base (String.ofList s)).mapError fun e => .unreadable (e.text base (String.ofList s))

/-- A decimal number. -/
def decimal (s : List Char) : Except NoValue Float :=
  match Number.readFloat? (String.ofList s) with
  | some x => .ok x
  | none => .error (.unreadable ("could not convert string to float: " ++ Text.quoted (String.ofList s)))

/-- The sign of a number's text without its low lines, and what follows it. -/
def signOf (t : String) : Except NoValue (Bool × List Char) :=
  match t.toList.filter (· != '_') with
  | [] => .error .empty
  | s => .ok (Number.sign s)

/-- The whole number that a text spells. -/
def intValue (t : String) : Spelled := do
  let (negative, s) ← signOf t
  let n ← match s with
    | [] => .error .empty
    | '0' :: 'b' :: r => whole 2 r
    | '0' :: 'x' :: r => whole 16 r
    | ['0'] => .ok 0
    | '0' :: _ => whole 8 s
    | _ =>
      if s.contains ':' then do
        let ns ← (Text.splitAtChar ':' s).mapM (whole 10)
        .ok (ns.foldl (fun n k => 60 * n + k) 0)
      else whole 10 s
  return .int (if negative then -n else n)

/-- The sum of numbers that count `unit`, sixty times `unit` and so on. -/
def sixtySum (unit : Nat) (sum : Float) : List Float → Except NoValue Float
  | [] => .ok sum
  | x :: xs =>
    let u := Number.ofInt unit
    if u.isFinite then sixtySum (60 * unit) (sum + x * u) xs
    else .error (.tooLarge "int too large to convert to float")

/-- The decimal number that a text spells. -/
def floatValue (t : String) : Spelled := do
  let (negative, s) ← signOf t
  let s := Text.lowered s
  let x ← if s == ".inf".toList then .ok (Number.ofFields false 2047 0)
    else if s == ".nan".toList then .ok (Number.ofFields false 2047 (Number.twoTo 51))
    else if s.contains ':' then do
      let xs ← (Text.splitAtChar ':' s).mapM decimal
      sixtySum 1 0 xs.reverse
    else decimal s
  return .float (if negative then -x else x)

/-- The date or instant that a text spells. -/
def stampValue (t : String) : Spelled :=
  let refuse (why : String) : Spelled := .error (.unreadable why)
  match stamp? (lessFeed t.toList) with
  | none => .error .undated
  | some ⟨y, m, d, time⟩ =>
    let offset : Int := ((time.bind fun (_, _, _, _, o) => o.join).getD 0)
    if 86400 ≤ offset.natAbs then
      refuse ("offset must be a timedelta strictly between -timedelta(hours=24) and timedelta(hours=24), not " ++
        Instant.spanText offset ++ ".")
    else if y == 0 then refuse "year 0 is out of range"
    else if m == 0 || 12 < m then refuse "month must be in 1..12"
    else if d == 0 || Instant.monthDays y m < d then refuse "day is out of range for month"
    else match time with
      | none => .ok (.date y m d)
      | some (h, mi, sec, frac, offset) =>
        if 23 < h then refuse "hour must be in 0..23"
        else if 59 < mi then refuse "minute must be in 0..59"
        else if 59 < sec then refuse "second must be in 0..59"
        else
          let us : Int := (Text.digitsValue ((frac ++ List.replicate 6 '0').take 6) : Nat)
          let reading := Instant.daysOfDate y m d * Instant.day +
            ((h * 3600 + mi * 60 + sec : Nat) : Int) * Instant.second + us
          .ok (.instant ⟨reading, offset.join⟩)

end Plain

end Ratchet.Yaml
