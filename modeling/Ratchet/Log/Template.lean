import Ratchet.Datum.Shown
import Ratchet.Fault
import Ratchet.Number.Scientific

/-!
Message templates.

A template is a text with slots. A slot starts with a percent sign and ends with a letter, which says
how its value is written; what stands between them says which value is meant, how wide it is and how
exact. Two percent signs stand for one. Values are used in their order, or by their keys when there is
one mapping of them. Slots are filled from left to right, and the first one that cannot be filled is the
fault.
-/

namespace Ratchet.Log

/-- How far a slot reaches, or how exact it is. -/
inductive Extent
  | unsaid
  | fixed (n : Nat)
  /-- The next value says it. -/
  | asked
  deriving DecidableEq, Repr

/-- How a slot says which value is meant. -/
inductive SlotKey
  | unsaid
  | named (key : String)
  /-- The template ends within the key. -/
  | unclosed
  deriving DecidableEq, Repr

/-- A slot of a template. -/
structure Slot where
  key : SlotKey := .unsaid
  marks : List Char := []
  width : Extent := .unsaid
  exactness : Extent := .unsaid
  /-- The letter that says how the value is written; nothing if the template ends before it. -/
  letter : Option Char := none
  /-- Where the letter stands in the template. -/
  position : Nat := 0
  deriving DecidableEq, Repr

/-- A part of a template. -/
inductive Piece
  | plain (c : Char)
  | slot (s : Slot)
  deriving DecidableEq, Repr

namespace Slot

/-- The key of a slot, whose round brackets are balanced, and what follows it. -/
def readKeyFrom (depth : Nat) (acc : List Char) : List Char → SlotKey × List Char
  | [] => (.unclosed, [])
  | ')' :: s =>
    if depth == 0 then (.named (String.ofList acc.reverse), s) else readKeyFrom (depth - 1) (')' :: acc) s
  | '(' :: s => readKeyFrom (depth + 1) ('(' :: acc) s
  | c :: s => readKeyFrom depth (c :: acc) s

/-- The key at the start of a slot, if there is one, and what follows it. -/
def readKey : List Char → SlotKey × List Char
  | '(' :: s => readKeyFrom 0 [] s
  | s => (.unsaid, s)

/-- The characters that say how a value is placed. -/
def isMark (c : Char) : Bool := "-+ #0".toList.contains c

/-- An extent, or what holds when there is none, and what follows it. -/
def readExtent (absent : Extent) : List Char → Extent × List Char
  | '*' :: s => (.asked, s)
  | s =>
    let ds := s.takeWhile Char.isDigit
    (if ds.isEmpty then absent else .fixed (Nat.ofDigitChars 10 ds 0), s.dropWhile Char.isDigit)

/-- The exactness of a slot, which follows a point, and what follows it. -/
def readExactness : List Char → Extent × List Char
  | '.' :: s => readExtent (.fixed 0) s
  | s => (.unsaid, s)

/-- What follows a letter for the size of a number, which says nothing. -/
def dropSize : List Char → List Char
  | c :: s => if c == 'h' || c == 'l' || c == 'L' then s else c :: s
  | [] => []

/-- Reads a slot after its percent sign; `total` is the length of the template. -/
def read (total : Nat) (s : List Char) : Slot × List Char :=
  let (key, s) := readKey s
  let (marks, s) := (s.takeWhile isMark, s.dropWhile isMark)
  let (width, s) := readExtent .unsaid s
  let (exactness, s) := readExactness s
  let s := dropSize s
  ({ key, marks, width, exactness, letter := s.head?, position := total - s.length }, s.drop 1)

end Slot

/-- The parts of a template; each takes a character at least. -/
def piecesFrom (total : Nat) : Nat → List Char → List Piece
  | 0, _ | _, [] => []
  | left + 1, '%' :: '%' :: s => .plain '%' :: piecesFrom total left s
  | left + 1, '%' :: s =>
    let (slot, r) := Slot.read total s
    .slot slot :: piecesFrom total left r
  | left + 1, c :: s => .plain c :: piecesFrom total left s

/-- The parts of a template. -/
def pieces (template : List Char) : List Piece := piecesFrom template.length template.length template

/-! ## Writing a value -/

/-- A value in two parts: what stays in front when it is filled up, and the rest. -/
structure Written where
  front : List Char := []
  rest : List Char
  deriving DecidableEq, Repr

namespace Written

/-- A number: its sign, or what stands for the sign of a number that is not negative. -/
def number (marks : List Char) (negative : Bool) (mark rest : List Char) : Written :=
  let sign := if negative then ['-'] else if marks.contains '+' then ['+'] else if marks.contains ' ' then [' '] else []
  ⟨sign ++ mark, rest⟩

end Written

/-- A value with what it is filled up by: characters before it, zeros inside, or blanks after it. -/
structure Filled where
  value : Written
  before : Nat := 0
  inside : Nat := 0
  after : Nat := 0
  deriving DecidableEq, Repr

namespace Filled

/-- A value filled up to a width as its marks ask; `zeros` tells whether zeros may stand inside. -/
def ofWidth (marks : List Char) (zeros : Bool) (width : Nat) (w : Written) : Filled :=
  let missing := width - (w.front.length + w.rest.length)
  if marks.contains '-' then { value := w, after := missing }
  else if zeros && marks.contains '0' then { value := w, inside := missing }
  else { value := w, before := missing }

/-- A character of the template. -/
def ofChar (c : Char) : Filled := { value := { rest := [c] } }

/-- The text of a filled value. -/
def text (f : Filled) : List Char :=
  List.replicate f.before ' ' ++ f.value.front ++ List.replicate f.inside '0' ++ f.value.rest ++
    List.replicate f.after ' '

end Filled

/-- The whole number of a value. -/
def wholeOf : Datum → Except Fault Int
  | .bool b => .ok (if b then 1 else 0)
  | .int n => .ok n
  | _ => .error .badType

/-- The whole part of a value. -/
def wholePart : Datum → Except Fault Int
  | .float x => match Number.parts x with
    | .nan => .error (.value "cannot convert float NaN to integer")
    | .infinite _ => .error (.overflow "cannot convert float infinity to integer")
    | .finite .. => .ok ((Number.truncate? x).getD 0)
  | d => wholeOf d

/-- The decimal of a value. -/
def decimalOf : Datum → Except Fault Float
  | .float x => .ok x
  | d => do
    let x := Number.ofInt (← wholeOf d)
    if x.isFinite then return x else .error (.overflow "int too large to convert to float")

/-- A text with its characters beyond the seven-bit ones written by their code points. -/
def plainLetters (s : String) : List Char :=
  s.toList.flatMap fun c =>
    let n := c.toNat
    if n < 0x80 then [c]
    else if n < 0x100 then '\\' :: 'x' :: Text.hexPadded 2 n
    else if n < 0x10000 then '\\' :: 'u' :: Text.hexPadded 4 n
    else '\\' :: 'U' :: Text.hexPadded 8 n

/-- The digits of a number to a base, at least as many as asked. -/
def digitsTo (base least n : Nat) : List Char :=
  let ds := Nat.toDigits base n
  List.replicate (least - ds.length) '0' ++ ds

/-- Letters that stand for a value as text. -/
def isTextLetter (c : Char) : Bool := "sra".toList.contains c

/-- Letters that stand for a decimal. -/
def isDecimalLetter (c : Char) : Bool := "eEfFgG".toList.contains c

/-- A value as one character. -/
def characterOf : Datum → Except Fault (List Char)
  | .text s => if s.length == 1 then .ok s.toList else .error .badType
  | d => do
    let n ← wholeOf d
    if 0 ≤ n && n < 0x110000 then return [Char.ofNat n.toNat]
    else .error (.overflow "%c arg not in range(0x110000)")

/-- A decimal as a letter asks. -/
def writeDecimal (letter : Char) (marks : List Char) (places : Nat) (x : Float) : Written :=
  let alternate := marks.contains '#'
  let body (m : Nat) (q : Int) := match letter.toLower with
    | 'e' => Number.scientific alternate places m q
    | 'g' => Number.general alternate places m q
    | _ => Number.positional alternate places m q
  let (negative, cs) := match Number.parts x with
    | .nan => (false, "nan".toList)
    | .infinite n => (n, "inf".toList)
    | .finite n m q => (n, body m q)
  .number marks negative [] (if letter.isUpper then cs.map Char.toUpper else cs)

/-- The greatest number of digits that can be asked for at least. -/
def mostDigits : Nat := 2147483644

/-- A whole number to a base, with at least so many digits as are asked for. -/
def writeWhole (marks : List Char) (exactness : Option Nat) (base : Nat) (mark : List Char) (n : Int) :
    Except Fault Written :=
  let least := exactness.getD 0
  if mostDigits < least then .error (.overflow "precision too large")
  else .ok (.number marks (n < 0) (if marks.contains '#' then mark else []) (digitsTo base least n.natAbs))

/-- A value as a letter asks, which stands at a position of the template. -/
def write (letter : Char) (position : Nat) (marks : List Char) (exactness : Option Nat) (d : Datum) :
    Except Fault Written :=
  let cut (cs : List Char) : List Char := exactness.elim cs cs.take
  match letter with
  | 's' => .ok ⟨[], cut d.shown.toList⟩
  | 'r' => .ok ⟨[], cut d.inner.toList⟩
  | 'a' => .ok ⟨[], cut (plainLetters d.inner)⟩
  | 'c' => do return ⟨[], ← characterOf d⟩
  | 'd' | 'i' | 'u' => do writeWhole marks exactness 10 [] (← wholePart d)
  | 'x' => do writeWhole marks exactness 16 ['0', 'x'] (← wholeOf d)
  | 'X' => do
    let w ← writeWhole marks exactness 16 ['0', 'X'] (← wholeOf d)
    return { w with rest := w.rest.map Char.toUpper }
  | 'o' => do writeWhole marks exactness 8 ['0', 'o'] (← wholeOf d)
  | c =>
    if isDecimalLetter c then do return writeDecimal c marks (exactness.getD 6) (← decimalOf d)
    else
      let shown := if 31 ≤ c.toNat && c.toNat ≤ 126 then c else '?'
      .error (.value ("unsupported format character '" ++ String.singleton shown ++ "' (0x" ++
        String.ofList (Nat.toDigits 16 c.toNat) ++ ") at index " ++ toString position))

/-! ## Filling a template -/

/-- The values for a template: those that are still to be used, and the mapping they may be taken from. -/
structure Supply where
  queue : List Datum
  entries : Option (List (Datum × Datum)) := none

namespace Supply

/-- The supply of values. One mapping with something in it stands for its entries. -/
def ofValues : List Datum → Supply
  | [.map es] => if es.isEmpty then ⟨[.map es], none⟩ else ⟨[.map es], some es⟩
  | ds => ⟨ds, none⟩

/-- The supply for a slot with a key. -/
def keyed (s : Supply) (key : SlotKey) : Except Fault Supply :=
  match key, s.entries with
  | .unsaid, _ => .ok s
  | _, none => .error .badType
  | .unclosed, some _ => .error (.value "incomplete format key")
  | .named k, some es => match Datum.entry? k es with
    | some d => .ok { s with queue := [d] }
    | none => .error (.plain (.other "KeyError") (Text.quoted k))

/-- The next value. -/
def next (s : Supply) : Except Fault (Datum × Supply) :=
  match s.queue with
  | [] => .error .badType
  | d :: ds => .ok (d, { s with queue := ds })

/-- An extent, which the next value may say. It has to lie below `bound`, and one that a value says not
below `-bound`. -/
def extent (s : Supply) (bound : Nat) (tooBig : String) : Extent → Except Fault (Option Int × Supply)
  | .unsaid => .ok (none, s)
  | .fixed n => if n < bound then .ok (some n, s) else .error (.value tooBig)
  | .asked => do
    let (d, s) ← s.next
    match d with
    | .bool _ | .int _ =>
      let n ← wholeOf d
      if -(bound : Int) ≤ n && n < bound then return (some n, s)
      else .error (.overflow "a number is too large for an extent")
    | _ => .error .badType

end Supply

/-- The bounds of a width and of an exactness. -/
def widthBound : Nat := Number.twoTo 63

/-- As above. -/
def exactnessBound : Nat := Number.twoTo 31

/-- A width for which there is no room. -/
def roomBound : Nat := Number.twoTo 35

/-- Fills a slot. -/
def fillSlot (slot : Slot) (s : Supply) : Except Fault (Filled × Supply) := do
  let s ← s.keyed slot.key
  let (width, s) ← s.extent widthBound "width too big" slot.width
  let (exactness, s) ← s.extent exactnessBound "precision too big" slot.exactness
  match slot.letter with
  | none => .error (.value "incomplete format")
  | some c =>
    let (d, s) ← s.next
    let w ← write c slot.position slot.marks (exactness.map Int.toNat) d
    let width := width.getD 0
    let marks := if width < 0 then '-' :: slot.marks else slot.marks
    let width := if width == -widthBound then 0 else width.natAbs
    if roomBound ≤ width then .error (.plain (.other "MemoryError") "")
    else return (.ofWidth marks (!isTextLetter c && c != 'c') width w, s)

/-- Fills the parts of a template. No value may be left, unless they come from a mapping. -/
def fillAll (s : Supply) : List Piece → Except Fault (List Filled)
  | [] => if s.queue.isEmpty || s.entries.isSome then .ok [] else .error .badType
  | .plain c :: ps => do return .ofChar c :: (← fillAll s ps)
  | .slot slot :: ps => do
    let (f, s) ← fillSlot slot s
    return f :: (← fillAll s ps)

/-- A template with its slots filled. Without values a template stands for itself. -/
def fill (template : String) (values : List Datum) : Except Fault String := do
  if values.isEmpty then return template
  else return String.ofList ((← fillAll (.ofValues values) (pieces template.toList)).flatMap Filled.text)

end Ratchet.Log
