import Ratchet.Datum
import Ratchet.Text.Digit

/-!
Reading JSON.

The reader takes one value with blanks around it. Besides the standard it takes the words for
infinity and for what is not a number. Whole numbers have at most 4300 digits, and values nest at
most `maxDepth` levels deep.
-/

namespace Ratchet.Json

/-- Why a text is not read. -/
inductive ReadError
  /-- The text is no JSON document. -/
  | malformed
  /-- A whole number has more than 4300 digits. -/
  | longNumber (digits : Nat)
  /-- The values nest too deeply. -/
  | tooDeep
  deriving DecidableEq, Repr

/-- The number of levels that values may nest. -/
def maxDepth : Nat := 980

/-- The number of digits that a whole number may have. -/
def maxDigits : Nat := 4300

/-- The blanks of JSON. -/
def isGap (c : Char) : Bool := c == ' ' || c == '\t' || c == '\n' || c == '\r'

/-- The text after its leading blanks. -/
def skipGap (s : List Char) : List Char := s.dropWhile isGap

/-- A basic digit. -/
def isDigit (c : Char) : Bool := c.isDigit

/-- The value of a hexadecimal digit. -/
def hexValue? (c : Char) : Option Nat :=
  if c.isDigit then some (c.toNat - 0x30)
  else if 'a' ≤ c && c ≤ 'f' then some (c.toNat - 0x61 + 10)
  else if 'A' ≤ c && c ≤ 'F' then some (c.toNat - 0x41 + 10)
  else none

/-- Four hexadecimal digits and the rest. -/
def hexUnit? : List Char → Option (Nat × List Char)
  | a :: b :: c :: d :: r => do
    return (((← hexValue? a) * 16 + (← hexValue? b)) * 256 + (← hexValue? c) * 16 + (← hexValue? d), r)
  | _ => none

/-- The character that a letter stands for after a backslash. -/
def plainEscape? : Char → Option Char
  | '"' => some '"'
  | '\\' => some '\\'
  | '/' => some '/'
  | 'b' => some '\x08'
  | 'f' => some '\x0c'
  | 'n' => some '\n'
  | 'r' => some '\r'
  | 't' => some '\t'
  | _ => none

/-- Reads a string's body up to the closing quote. `acc` is the reversed text so far and `broken`
tells whether half of a surrogate pair stood in it. -/
def readText (fuel : Nat) (acc : List Char) (broken : Bool) (s : List Char) : Except ReadError (Datum × List Char) :=
  match fuel with
  | 0 => .error .malformed
  | fuel + 1 =>
    match s with
    | [] => .error .malformed
    | '"' :: r => .ok (if broken then .brokenText else .text (String.ofList acc.reverse), r)
    | '\\' :: 'u' :: r =>
      match hexUnit? r with
      | none => .error .malformed
      | some (n, r) =>
        if 0xd800 ≤ n && n ≤ 0xdbff then
          match r with
          | '\\' :: 'u' :: r' =>
            match hexUnit? r' with
            | none => .error .malformed
            | some (m, r'') =>
              if 0xdc00 ≤ m && m ≤ 0xdfff then
                readText fuel (Char.ofNat (0x10000 + (n - 0xd800) * 0x400 + (m - 0xdc00)) :: acc) broken r''
              else readText fuel acc true r
          | _ => readText fuel acc true r
        else if 0xdc00 ≤ n && n ≤ 0xdfff then readText fuel acc true r
        else readText fuel (Char.ofNat n :: acc) broken r
    | '\\' :: c :: r =>
      match plainEscape? c with
      | none => .error .malformed
      | some e => readText fuel (e :: acc) broken r
    | c :: r =>
      if c.toNat < 0x20 || c == '\\' then .error .malformed else readText fuel (c :: acc) broken r

/-- The digits after a decimal point, if there are any. -/
def fraction (s : List Char) : List Char × List Char :=
  match s with
  | '.' :: r =>
    let ds := r.takeWhile isDigit
    if ds.isEmpty then ([], s) else (ds, r.dropWhile isDigit)
  | _ => ([], s)

/-- The exponent of a number, if there is one. -/
def exponent? (s : List Char) : Option Int × List Char :=
  match s with
  | c :: r =>
    if c == 'e' || c == 'E' then
      let (negative, r') := match r with
        | '-' :: t => (true, t)
        | '+' :: t => (false, t)
        | _ => (false, r)
      let ds := r'.takeWhile isDigit
      if ds.isEmpty then (none, s)
      else
        let n : Int := Text.digitsValue ds
        (some (if negative then -n else n), r'.dropWhile isDigit)
    else (none, s)
  | [] => (none, [])

/-- Reads a number whose sign has been read. -/
def readNumber (negative : Bool) (s : List Char) : Except ReadError (Datum × List Char) :=
  let (whole, r) := match s with
    | '0' :: r => (['0'], r)
    | _ => (s.takeWhile isDigit, s.dropWhile isDigit)
  if whole.isEmpty then .error .malformed
  else
    let (frac, r) := fraction r
    let (exp, r) := exponent? r
    if frac.isEmpty && exp.isNone then
      if maxDigits < whole.length then .error (.longNumber whole.length)
      else
        let n : Int := Text.digitsValue whole
        .ok (.int (if negative then -n else n), r)
    else
      .ok (.float (Number.ofDecimal negative (Text.digitsValue (whole ++ frac))
        (exp.getD 0 - frac.length)), r)

/-- The rest of the text after a word at its start. -/
def afterWord? (word : String) (s : List Char) : Option (List Char) :=
  if word.toList.isPrefixOf s then some (s.drop word.length) else none

/-- Reads a word or a number. -/
def readPlain (s : List Char) : Except ReadError (Datum × List Char) :=
  match s with
  | '-' :: r =>
    match afterWord? "Infinity" r with
    | some t => .ok (.float (Number.ofFields true 2047 0), t)
    | none => readNumber true r
  | _ =>
    match afterWord? "null" s with
    | some t => .ok (.null, t)
    | none => match afterWord? "true" s with
      | some t => .ok (.bool true, t)
      | none => match afterWord? "false" s with
        | some t => .ok (.bool false, t)
        | none => match afterWord? "NaN" s with
          | some t => .ok (.float (Number.ofFields false 2047 1), t)
          | none => match afterWord? "Infinity" s with
            | some t => .ok (.float (Number.ofFields false 2047 0), t)
            | none => readNumber false s

mutual

/-- Reads a value that starts at the first character. -/
def readValue (fuel depth : Nat) (s : List Char) : Except ReadError (Datum × List Char) :=
  match fuel with
  | 0 => .error .malformed
  | fuel + 1 =>
    match s with
    | '"' :: r => readText (r.length + 1) [] false r
    | '[' :: r =>
      match depth with
      | 0 => .error .tooDeep
      | depth + 1 =>
        match skipGap r with
        | ']' :: t => .ok (.list [], t)
        | r => (readItems fuel depth r).map fun (xs, t) => (.list xs, t)
    | '\x7b' :: r =>
      match depth with
      | 0 => .error .tooDeep
      | depth + 1 =>
        match skipGap r with
        | '\x7d' :: t => .ok (.map [], t)
        | r => (readFields fuel depth [] r).map fun (es, t) => (.map es, t)
    | _ => readPlain s

/-- Reads the items of a list up to its end. -/
def readItems (fuel depth : Nat) (s : List Char) : Except ReadError (List Datum × List Char) :=
  match fuel with
  | 0 => .error .malformed
  | fuel + 1 => do
    let (x, r) ← readValue fuel depth s
    match skipGap r with
    | ']' :: t => .ok ([x], t)
    | ',' :: t =>
      let (xs, t) ← readItems fuel depth (skipGap t)
      .ok (x :: xs, t)
    | _ => .error .malformed

/-- Reads the fields of a mapping up to its end, after the ones in `done`. -/
def readFields (fuel depth : Nat) (done : List (Datum × Datum)) (s : List Char) :
    Except ReadError (List (Datum × Datum) × List Char) :=
  match fuel with
  | 0 => .error .malformed
  | fuel + 1 =>
    match s with
    | '"' :: r => do
      let (k, r) ← readText (r.length + 1) [] false r
      match skipGap r with
      | ':' :: r =>
        let (v, r) ← readValue fuel depth (skipGap r)
        let done := Datum.putEntry k v done
        match skipGap r with
        | '\x7d' :: t => .ok (done, t)
        | ',' :: t => readFields fuel depth done (skipGap t)
        | _ => .error .malformed
      | _ => .error .malformed
    | _ => .error .malformed

end

/-- Reads a document. -/
def read (s : String) : Except ReadError Datum := do
  let s := s.toList
  let (d, r) ← readValue (2 * s.length + 2) maxDepth (skipGap s)
  if (skipGap r).isEmpty then .ok d else .error .malformed

end Ratchet.Json
