/-!
A place in a configuration text.

The cursor knows what is left of the text and at which index, line and column it stands. All
readers of the format's parts move it forward only.
-/

namespace Ratchet.Yaml

/-- Why a text does not denote a value of the kind that is asked for. -/
inductive NoValue
  /-- The text cannot be read as such a value, or denotes one that does not exist. -/
  | unreadable (message : String)
  /-- The text ends before a number begins. -/
  | empty
  /-- The word is none of the words for yes and no. -/
  | unknownWord (word : String)
  /-- The text has not the form of a date. -/
  | undated
  /-- There is a mapping in the place of a text. -/
  | notText
  /-- The text denotes a number that is too large. -/
  | tooLarge (message : String)
  deriving DecidableEq, Repr

/-- Why a text is no configuration document. -/
inductive ReadError
  /-- The text breaks a rule of the format. -/
  | malformed
  /-- Too many collections stand in one another. -/
  | tooDeep
  /-- A part of the text denotes no value. -/
  | noValue (why : NoValue)
  deriving DecidableEq, Repr

/-- A place in a text. -/
structure Cursor where
  rest : List Char
  index : Nat
  line : Nat
  column : Nat
  deriving Repr

namespace Cursor

/-- The start of a text. -/
def start (s : List Char) : Cursor := ⟨s, 0, 0, 0⟩

/-- The next character. -/
def peek? (c : Cursor) : Option Char := c.rest.head?

/-- The character `n` places ahead. -/
def ahead? (c : Cursor) (n : Nat) : Option Char := (c.rest.drop n).head?

end Cursor

/-- The characters that end a line. -/
def isBreak (c : Char) : Bool := c == '\n' || c == '\r' || c == '\x85' || c == '\u2028' || c == '\u2029'

/-- A line end, or the end of the text. -/
def endsLine : Option Char → Bool
  | none => true
  | some c => isBreak c

/-- A blank, a line end or the end of the text. -/
def endsWord : Option Char → Bool
  | none => true
  | some c => c == ' ' || c == '\t' || isBreak c

namespace Cursor

/-- One character further. -/
def next (c : Cursor) : Cursor :=
  match c.rest with
  | [] => c
  | x :: r =>
    if isBreak x && !(x == '\r' && r.head? == some '\n') then ⟨r, c.index + 1, c.line + 1, 0⟩
    else if x == '\ufeff' then ⟨r, c.index + 1, c.line, c.column⟩
    else ⟨r, c.index + 1, c.line, c.column + 1⟩

/-- `n` characters further. -/
def skip (c : Cursor) : Nat → Cursor
  | 0 => c
  | n + 1 => (c.next).skip n

/-- The text up to the first character that `p` refuses, and the place after it. -/
def takeWhile (c : Cursor) (p : Char → Bool) : List Char × Cursor :=
  let s := c.rest.takeWhile p
  (s, c.skip s.length)

/-- The place after the characters that `p` accepts. -/
def dropWhile (c : Cursor) (p : Char → Bool) : Cursor := (c.takeWhile p).2

/-- The line end at the cursor as it counts in a value, and the place after it. -/
def lineBreak (c : Cursor) : List Char × Cursor :=
  match c.rest with
  | '\r' :: '\n' :: _ => (['\n'], c.skip 2)
  | x :: _ =>
    if x == '\u2028' || x == '\u2029' then ([x], c.next)
    else if isBreak x then (['\n'], c.next)
    else ([], c)
  | [] => ([], c)

/-- Whether a marker of a document's start or end stands at the cursor. -/
def atMarker (c : Cursor) : Bool :=
  let s := c.rest.take 3
  (s == ['-', '-', '-'] || s == ['.', '.', '.']) && endsWord (c.ahead? 3)

end Cursor

end Ratchet.Yaml
