import Ratchet.Yaml.Cursor
import Ratchet.Json.Reader

/-!
The texts of a configuration document: plain, quoted and block texts.

A line end inside a plain or quoted text counts as a space, and every further line end as itself. A
block text keeps its line ends, or folds them when it starts with the folding mark.
-/

namespace Ratchet.Yaml

/-- A text that has been read and the place after it. -/
abbrev Scanned := Except ReadError (List Char × Cursor)

/-- The place after the rest of a line that holds nothing but blanks and a comment. -/
def restOfLine (c : Cursor) : Except ReadError Cursor :=
  let c := c.dropWhile (· == ' ')
  let c := if c.peek? == some '#' then c.dropWhile (!isBreak ·) else c
  if endsLine c.peek? then .ok c.lineBreak.2 else .error .malformed

/-! ## Plain texts -/

/-- Whether a plain text stops before the character `x` that is followed by `y`. -/
def stopsPlain (inFlow : Bool) (x : Char) (y : Option Char) : Bool :=
  endsWord (some x) ||
    (x == ':' && (endsWord y || (inFlow && match y with
      | some z => [',', '[', ']', '\x7b', '\x7d'].contains z
      | none => false))) ||
    (inFlow && [',', '?', '[', ']', '\x7b', '\x7d'].contains x)

/-- The number of characters before the end of a stretch of plain text. -/
def plainLength (inFlow : Bool) : List Char → Nat
  | [] => 0
  | x :: r => if stopsPlain inFlow x r.head? then 0 else plainLength inFlow r + 1

/-- The empty lines after a line end, each as it counts; nothing if a document marker comes. -/
def plainBreaks (fuel : Nat) (c : Cursor) (breaks : List (List Char)) :
    Option (List (List Char) × Cursor) :=
  match fuel with
  | 0 => some (breaks, c)
  | fuel + 1 =>
    match c.peek? with
    | some x =>
      if x == ' ' then plainBreaks fuel c.next breaks
      else if isBreak x then
        let (b, c) := c.lineBreak
        if c.atMarker then none else plainBreaks fuel c (breaks ++ [b])
      else some (breaks, c)
    | none => some (breaks, c)

/-- What stands between two stretches of a plain text, the place after it, and whether a line ended.
Nothing stands there if the text ends. -/
def plainGap (c : Cursor) : List Char × Cursor × Bool :=
  let (blanks, c) := c.takeWhile (· == ' ')
  match c.peek? with
  | some x =>
    if isBreak x then
      let (b, c) := c.lineBreak
      if c.atMarker then ([], c, true)
      else match plainBreaks (c.rest.length + 1) c [] with
        | none => ([], c, true)
        | some (breaks, c) =>
          let first := if b != ['\n'] then b else if breaks.isEmpty then [' '] else []
          (first ++ breaks.flatten, c, true)
    else (blanks, c, false)
  | none => (blanks, c, false)

/-- The text of parts, the last part first. -/
def joined (parts : List (List Char)) : List Char := parts.reverse.flatten

/-- Reads a plain text. `gap` is what stands before the next stretch, and `acc` the parts before it, the
last one first. The flag tells whether a line ended in the last gap. -/
def plainFrom (fuel : Nat) (inFlow : Bool) (indent : Int) (gap : List Char) (acc : List (List Char))
    (broke : Bool) (c : Cursor) : List Char × Cursor × Bool :=
  match fuel with
  | 0 => (joined acc, c, broke)
  | fuel + 1 =>
    if c.peek? == some '#' then (joined acc, c, broke)
    else
      let n := plainLength inFlow c.rest
      if n == 0 then (joined acc, c, broke)
      else
        let acc := c.rest.take n :: gap :: acc
        let (gap, c, broke) := plainGap (c.skip n)
        if gap.isEmpty || c.peek? == some '#' || (!inFlow && (c.column : Int) < indent) then (joined acc, c, broke)
        else plainFrom fuel inFlow indent gap acc broke c

/-- A plain text below the given indentation. -/
def plainText (inFlow : Bool) (indent : Int) (c : Cursor) : List Char × Cursor × Bool :=
  plainFrom (c.rest.length + 1) inFlow (indent + 1) [] [] false c

/-! ## Quoted texts -/

/-- The empty lines after a line end inside quotes. -/
def quotedBreaks (fuel : Nat) (c : Cursor) (acc : List Char) : Scanned :=
  match fuel with
  | 0 => .error .malformed
  | fuel + 1 =>
    if c.atMarker then .error .malformed
    else
      let c := c.dropWhile fun x => x == ' ' || x == '\t'
      match c.peek? with
      | some x =>
        if isBreak x then
          let (b, c) := c.lineBreak
          quotedBreaks fuel c (acc ++ b)
        else .ok (acc, c)
      | none => .ok (acc, c)

/-- The blanks and line ends at the cursor, inside quotes. -/
def quotedGap (c : Cursor) : Scanned :=
  let (blanks, c) := c.takeWhile fun x => x == ' ' || x == '\t'
  match c.peek? with
  | none => .error .malformed
  | some x =>
    if isBreak x then do
      let (b, c) := c.lineBreak
      let (breaks, c) ← quotedBreaks (c.rest.length + 1) c []
      let first := if b != ['\n'] then b else if breaks.isEmpty then [' '] else []
      .ok (first ++ breaks, c)
    else .ok (blanks, c)

/-- The character that a letter stands for after a backslash. -/
def letterEscape? : Char → Option Char
  | '0' => some '\x00'
  | 'a' => some '\x07'
  | 'b' => some '\x08'
  | 't' | '\t' => some '\t'
  | 'n' => some '\n'
  | 'v' => some '\x0b'
  | 'f' => some '\x0c'
  | 'r' => some '\r'
  | 'e' => some '\x1b'
  | ' ' => some ' '
  | '"' => some '"'
  | '\\' => some '\\'
  | '/' => some '/'
  | 'N' => some '\x85'
  | '_' => some '\xa0'
  | 'L' => some '\u2028'
  | 'P' => some '\u2029'
  | _ => none

/-- The number of hexadecimal digits that follow a letter after a backslash. -/
def codeLength? : Char → Option Nat
  | 'x' => some 2
  | 'u' => some 4
  | 'U' => some 8
  | _ => none

/-- The number with the given hexadecimal digits. -/
def codeValue? (ds : List Char) : Option Nat :=
  (ds.mapM Json.hexValue?).map fun vs => vs.foldl (fun n v => 16 * n + v) 0

/-- What stands between two quotes, or nothing if half of a surrogate pair is in it, and the place after it. -/
abbrev Quoted := Except ReadError (Option (List Char) × Cursor)

/-- The character with the given number is put in front of a text. Half of a surrogate pair breaks the text. -/
def putCode (n : Nat) (acc : Option (List Char)) : Except ReadError (Option (List Char)) :=
  if Nat.pow 2 31 ≤ n then .error (.noValue (.tooLarge "Python int too large to convert to C int"))
  else if 0x110000 ≤ n then .error (.noValue (.unreadable "chr() arg not in range(0x110000)"))
  else if 0xd800 ≤ n && n ≤ 0xdfff then .ok none
  else .ok (acc.map (Char.ofNat n :: ·))

/-- Reads a quoted text after its opening quote. What has been read is in `acc`, last character first. -/
def quotedFrom (fuel : Nat) (quote : Char) (acc : Option (List Char)) (c : Cursor) : Quoted :=
  match fuel with
  | 0 => .error .malformed
  | fuel + 1 =>
    let put (cs : List Char) := acc.map (cs.reverse ++ ·)
    match c.rest with
    | [] => .error .malformed
    | x :: r =>
      if x == quote then
        if quote == '\'' && r.head? == some '\'' then quotedFrom fuel quote (put ['\'']) (c.skip 2)
        else .ok (acc.map List.reverse, c.next)
      else if x == '\\' && quote == '"' then
        match r with
        | [] => .error .malformed
        | y :: t =>
          match letterEscape? y with
          | some e => quotedFrom fuel quote (put [e]) (c.skip 2)
          | none => match codeLength? y with
            | some n =>
              let ds := t.take n
              match codeValue? ds with
              | some v =>
                if ds.length == n then do
                  let acc ← putCode v acc
                  quotedFrom fuel quote acc (c.skip (2 + n))
                else .error .malformed
              | none => .error .malformed
            | none =>
              if isBreak y then do
                let (_, c) := c.next.lineBreak
                let (breaks, c) ← quotedBreaks (c.rest.length + 1) c []
                quotedFrom fuel quote (put breaks) c
              else .error .malformed
      else if endsWord (some x) then do
        let (gap, c) ← quotedGap c
        quotedFrom fuel quote (put gap) c
      else quotedFrom fuel quote (put [x]) c.next

/-- A quoted text that starts at the cursor. -/
def quotedText (quote : Char) (c : Cursor) : Quoted :=
  quotedFrom (c.rest.length + 1) quote (some []) c.next

/-! ## Block texts -/

/-- What happens to the line ends after a block text: all are dropped, one is kept, all are kept. -/
inductive Chomp
  | strip
  | clip
  | keep
  deriving DecidableEq, Repr

/-- The marks after the start of a block text: what happens to line ends, and the indentation. -/
def blockMarks (c : Cursor) : Except ReadError (Chomp × Option Nat × Cursor) :=
  let chomp? : Option Char → Option Chomp
    | some '+' => some .keep
    | some '-' => some .strip
    | _ => none
  let digit? : Option Char → Option Nat
    | some d => if d.isDigit then some (d.toNat - 0x30) else none
    | none => none
  let finish (k : Chomp) (n : Option Nat) (c : Cursor) : Except ReadError (Chomp × Option Nat × Cursor) :=
    if n == some 0 || !(c.peek? == some ' ' || endsLine c.peek?) then .error .malformed else .ok (k, n, c)
  match chomp? c.peek? with
  | some k =>
    let c := c.next
    match digit? c.peek? with
    | some n => finish k (some n) c.next
    | none => finish k none c
  | none =>
    match digit? c.peek? with
    | some n =>
      let c := c.next
      match chomp? c.peek? with
      | some k => finish k (some n) c.next
      | none => finish .clip (some n) c
    | none => finish .clip none c

/-- The empty lines at the start of a block text and the deepest indentation among them. -/
def blockDepth (fuel : Nat) (c : Cursor) (breaks : List Char) (deepest : Nat) : List Char × Nat × Cursor :=
  match fuel with
  | 0 => (breaks, deepest, c)
  | fuel + 1 =>
    match c.peek? with
    | some x =>
      if x == ' ' then
        let c := c.next
        blockDepth fuel c breaks (max deepest c.column)
      else if isBreak x then
        let (b, c) := c.lineBreak
        blockDepth fuel c (breaks ++ b) deepest
      else (breaks, deepest, c)
    | none => (breaks, deepest, c)

/-- The cursor after at most as many spaces as lead to the column `indent`. -/
def indented (indent : Nat) (c : Cursor) : Cursor :=
  c.skip ((c.rest.takeWhile (· == ' ')).length.min (indent - c.column))

/-- The empty lines before a line of a block text. -/
def blockBreaks (fuel indent : Nat) (c : Cursor) (breaks : List Char) : List Char × Cursor :=
  match fuel with
  | 0 => (breaks, c)
  | fuel + 1 =>
    match c.peek? with
    | some x =>
      if isBreak x then
        let (b, c) := c.lineBreak
        blockBreaks fuel indent (indented indent c) (breaks ++ b)
      else (breaks, c)
    | none => (breaks, c)

/-- Reads the lines of a block text, given the line ends before the first and the parts of the text so
far, the last one first. Yields the text, the last line end and the line ends after it. -/
def blockLines (fuel : Nat) (folded : Bool) (indent : Nat) (acc : List (List Char)) (breaks last : List Char)
    (c : Cursor) : List Char × List Char × List Char × Cursor :=
  match fuel with
  | 0 => (joined acc, last, breaks, c)
  | fuel + 1 =>
    if c.column == indent && c.peek?.isSome then
      let flush := !(c.peek? == some ' ' || c.peek? == some '\t')
      let (line, c) := c.takeWhile (!isBreak ·)
      let acc := line :: breaks :: acc
      let (last, c) := c.lineBreak
      let (breaks, c) := blockBreaks (c.rest.length + 1) indent (indented indent c) []
      if c.column == indent && c.peek?.isSome then
        let nextFlush := !(c.peek? == some ' ' || c.peek? == some '\t')
        let join :=
          if folded && last == ['\n'] && flush && nextFlush then (if breaks.isEmpty then [' '] else [])
          else last
        blockLines fuel folded indent (join :: acc) breaks last c
      else (joined acc, last, breaks, c)
    else (joined acc, last, breaks, c)

/-- A block text that starts at the cursor, below the given indentation. -/
def blockText (outer : Int) (c : Cursor) : Scanned := do
  let folded := c.peek? == some '>'
  let (chomp, depth, c) ← blockMarks c.next
  let c ← restOfLine c
  let least := (outer + 1).toNat.max 1
  let (breaks, indent, c) := match depth with
    | some n =>
      let indent := least + n - 1
      let (breaks, c) := blockBreaks (c.rest.length + 1) indent (indented indent c) []
      (breaks, indent, c)
    | none =>
      let (breaks, deepest, c) := blockDepth (c.rest.length + 1) c [] 0
      (breaks, least.max deepest, c)
  let (text, last, breaks, c) := blockLines (c.rest.length + 1) folded indent [] breaks [] c
  let tail := match chomp with
    | .strip => []
    | .clip => last
    | .keep => last ++ breaks
  return (text ++ tail, c)

end Ratchet.Yaml
