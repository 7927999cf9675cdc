import Ratchet.Number.Reading
import Ratchet.Yaml.Scalar

/-!
Tokens of a configuration document.

Indentation becomes tokens of its own: a deeper column opens a block collection and a return to an
outer column closes it. A text that may be a key is remembered until it is known whether a colon
follows on its line; then the key's token goes in front of it.
-/

namespace Ratchet.Yaml

/-- What a line before a document says. -/
inductive Directive
  /-- The version of the format, by its first number. -/
  | version (major : Nat)
  /-- A handle and the start of the tags that it stands for. -/
  | handle (name start : String)
  | other
  deriving DecidableEq, Repr

/-- A token. -/
inductive Token
  | directive (d : Directive)
  | documentStart
  | documentEnd
  | streamEnd
  | blockSequenceStart
  | blockMappingStart
  | blockEnd
  | flowSequenceStart
  | flowSequenceEnd
  | flowMappingStart
  | flowMappingEnd
  | blockEntry
  | flowEntry
  | key
  | value
  | alias (name : String)
  | anchor (name : String)
  /-- A tag with its handle, if it has one. -/
  | tag (handle : Option String) (suffix : String)
  /-- A text, or nothing if half of a surrogate pair is in it. -/
  | scalar (text : Option String) (plain : Bool)
  deriving DecidableEq, Repr

/-- A place where a key may have started. -/
structure PendingKey where
  /-- The number of tokens before it. -/
  position : Nat
  /-- Whether a colon has to follow. -/
  needed : Bool
  index : Nat
  line : Nat
  column : Nat
  deriving Repr

/-- The state of the scanner. -/
structure Scanner where
  cursor : Cursor
  /-- The tokens so far, first one first. -/
  tokens : Array Token
  /-- The number of flow collections around the cursor. -/
  flow : Nat
  indent : Int
  /-- The outer indentations, innermost first. -/
  outer : List Int
  /-- Whether a key may start here. -/
  keyAllowed : Bool
  /-- The pending key of each flow level that has one. -/
  pending : List (Nat × PendingKey)

namespace Scanner

/-- The scanner at the start of a text. -/
def start (s : List Char) : Scanner := ⟨Cursor.start s, #[], 0, -1, [], true, []⟩

/-- Whether the cursor stands inside a flow collection. -/
def inFlow (s : Scanner) : Bool := 0 < s.flow

/-- One more token. -/
def push (s : Scanner) (t : Token) : Scanner := { s with tokens := s.tokens.push t }

/-- A token put in at a position. -/
def insertAt (s : Scanner) (i : Nat) (t : Token) : Scanner :=
  { s with tokens := s.tokens.take i |>.push t |>.append (s.tokens.drop i) }

/-- Closes the block collections that are deeper than a column; `levels` bounds their number. -/
def unwind (s : Scanner) (levels : Nat) (column : Int) : Scanner :=
  match levels with
  | 0 => s
  | n + 1 =>
    if s.inFlow || s.indent ≤ column then s
    else match s.outer with
      | [] => s
      | i :: is => ({ s with indent := i, outer := is }.push .blockEnd).unwind n column

/-- Closes the block collections that are deeper than a column. -/
def unwindTo (s : Scanner) (column : Int) : Scanner := s.unwind (s.outer.length + 1) column

/-- Opens a block collection before the token at a position, if the column is deeper. -/
def openBlock (s : Scanner) (column : Nat) (position : Nat) (t : Token) : Scanner :=
  if s.indent < column then
    { s with outer := s.indent :: s.outer, indent := column }.insertAt position t
  else s

/-- Forgets the pending key of this level. A needed one may not be forgotten. -/
def dropPending (s : Scanner) : Except ReadError Scanner :=
  match s.pending.lookup s.flow with
  | some k =>
    if k.needed then .error .malformed
    else .ok { s with pending := s.pending.filter (·.1 != s.flow) }
  | none => .ok s

/-- Remembers that a key may start here. -/
def savePending (s : Scanner) : Except ReadError Scanner :=
  if s.keyAllowed then do
    let s ← s.dropPending
    let c := s.cursor
    let needed := !s.inFlow && s.indent == c.column
    return { s with pending := (s.flow, ⟨s.tokens.size, needed, c.index, c.line, c.column⟩) :: s.pending }
  else .ok s

/-- Forgets the pending keys that are on an earlier line or too far back. -/
def dropStale (s : Scanner) : Except ReadError Scanner :=
  let stale (k : PendingKey) : Bool := k.line != s.cursor.line || 1024 < s.cursor.index - k.index
  if s.pending.any fun (_, k) => stale k && k.needed then .error .malformed
  else .ok { s with pending := s.pending.filter fun (_, k) => !stale k }

/-- Skips spaces, comments and line ends before a token. -/
def skipGap (s : Scanner) (fuel : Nat) : Scanner :=
  match fuel with
  | 0 => s
  | fuel + 1 =>
    let c := s.cursor
    let c := if c.index == 0 && c.peek? == some '\ufeff' then c.next else c
    let c := c.dropWhile (· == ' ')
    let c := if c.peek? == some '#' then c.dropWhile (!isBreak ·) else c
    match c.peek? with
    | some x =>
      if isBreak x then
        { s with cursor := c.lineBreak.2, keyAllowed := s.keyAllowed || !s.inFlow }.skipGap fuel
      else { s with cursor := c }
    | none => { s with cursor := c }

/-- The characters of an anchor's name. -/
def isNameChar (c : Char) : Bool := c.isAlphanum || c == '-' || c == '_'

/-- An anchor or an alias. -/
def scanName (s : Scanner) (make : String → Token) : Except ReadError Scanner := do
  let s ← s.savePending
  let (name, c) := s.cursor.next.takeWhile isNameChar
  let ends := endsWord c.peek? || match c.peek? with
    | some x => ['?', ':', ',', ']', '\x7d', '%', '@', '\x60'].contains x
    | none => true
  if name.isEmpty || !ends then .error .malformed
  else return { s with cursor := c, keyAllowed := false }.push (make (String.ofList name))

/-- The characters of a tag. -/
def isTagChar (c : Char) : Bool :=
  c.isAlphanum || "-;/?:@&=+$,_.!~*'()[]%".toList.contains c

/-- A tag's text with its escapes of bytes resolved. -/
def tagText? (s : List Char) : Option String :=
  let rec go : List Char → Option (List UInt8)
    | [] => some []
    | '%' :: a :: b :: r => do
      return UInt8.ofNat ((← Json.hexValue? a) * 16 + (← Json.hexValue? b)) :: (← go r)
    | '%' :: _ => none
    | c :: r => do return (String.singleton c).toUTF8.toList ++ (← go r)
  (go s).bind fun bs => String.fromUTF8? ⟨bs.toArray⟩

/-- The end of a tag at the cursor, with its escapes of bytes resolved. It is not empty. -/
def scanSuffix (c : Cursor) : Except ReadError (String × Cursor) :=
  let (cs, c) := c.takeWhile isTagChar
  match tagText? cs with
  | some t => if cs.isEmpty then .error .malformed else .ok (t, c)
  | none => .error .malformed

/-- A handle at the cursor: an exclamation mark, or a name between two of them. -/
def scanHandle (c : Cursor) : Except ReadError (String × Cursor) :=
  if c.peek? != some '!' then .error .malformed
  else if c.ahead? 1 == some ' ' then .ok ("!", c.next)
  else
    let (name, c) := c.next.takeWhile isNameChar
    if c.peek? == some '!' then .ok (String.ofList ('!' :: name ++ ['!']), c.next) else .error .malformed

/-- Whether a space, a line end or the end of the text stands at the cursor. -/
def endsPart (c : Cursor) : Bool := c.peek? == some ' ' || endsLine c.peek?

/-- A tag. -/
def scanTag (s : Scanner) : Except ReadError Scanner := do
  let s ← s.savePending
  let finish (handle : Option String) (suffix : String) (c : Cursor) : Except ReadError Scanner :=
    if endsPart c then .ok ({ s with cursor := c, keyAllowed := false }.push (.tag handle suffix))
    else .error .malformed
  let c := s.cursor.next
  if c.peek? == some '<' then
    let (uri, c) ← scanSuffix c.next
    if c.peek? == some '>' then finish none uri c.next else .error .malformed
  else if endsWord c.peek? then finish none "!" c
  else
    let word := c.rest.takeWhile fun x => !(x == ' ' || isBreak x || x == '!')
    if c.ahead? word.length == some '!' then
      let (handle, c) ← scanHandle s.cursor
      let (suffix, c) ← scanSuffix c
      finish (some handle) suffix c
    else
      let (suffix, c) ← scanSuffix c
      finish (some "!") suffix c

/-- A whole number at the cursor. -/
def scanNumber (c : Cursor) : Except ReadError (Nat × Cursor) :=
  let (ds, c) := c.takeWhile Char.isDigit
  if ds.isEmpty then .error .malformed
  else if Number.maxDigits < ds.length then .error (.noValue (.unreadable (Number.longText ds.length)))
  else .ok (Text.digitsValue ds, c)

/-- What a line before a document says, behind its name. -/
def scanDirectiveBody (name : String) (c : Cursor) : Except ReadError (Directive × Cursor) := do
  let ended (d : Directive) (c : Cursor) : Except ReadError (Directive × Cursor) :=
    if endsPart c then .ok (d, c) else .error .malformed
  match name with
  | "YAML" =>
    let (major, c) ← scanNumber (c.dropWhile (· == ' '))
    if c.peek? != some '.' then .error .malformed
    else
      let (_, c) ← scanNumber c.next
      ended (.version major) c
  | "TAG" =>
    let (handle, c) ← scanHandle (c.dropWhile (· == ' '))
    if c.peek? != some ' ' then .error .malformed
    else
      let (start, c) ← scanSuffix (c.dropWhile (· == ' '))
      ended (.handle handle start) c
  | _ => return (.other, c.dropWhile (!isBreak ·))

/-- A directive line. -/
def scanDirective (s : Scanner) : Except ReadError Scanner := do
  let s := s.unwindTo (-1)
  let s ← s.dropPending
  let (name, c) := s.cursor.next.takeWhile isNameChar
  if name.isEmpty || !endsPart c then .error .malformed
  else
    let (d, c) ← scanDirectiveBody (String.ofList name) c
    let c ← restOfLine c
    return { s with cursor := c, keyAllowed := false }.push (.directive d)

/-- A token of one mark that opens or closes nothing. -/
def mark (s : Scanner) (t : Token) (n : Nat) : Scanner := { s with cursor := s.cursor.skip n }.push t

/-- The start of a flow collection. -/
def openFlow (s : Scanner) (t : Token) : Except ReadError Scanner := do
  let s ← s.savePending
  return { s with flow := s.flow + 1, keyAllowed := true }.mark t 1

/-- The end of a flow collection. -/
def closeFlow (s : Scanner) (t : Token) : Except ReadError Scanner := do
  let s ← s.dropPending
  if s.flow == 0 then .error .malformed
  else return { s with flow := s.flow - 1, keyAllowed := false }.mark t 1

/-- A marker of a document's start or end. -/
def scanMarker (s : Scanner) (t : Token) : Except ReadError Scanner := do
  let s := s.unwindTo (-1)
  let s ← s.dropPending
  return { s with keyAllowed := false }.mark t 3

/-- A dash before an item. -/
def scanBlockEntry (s : Scanner) : Except ReadError Scanner := do
  if !s.inFlow && !s.keyAllowed then .error .malformed
  else
    let s := if s.inFlow then s else s.openBlock s.cursor.column s.tokens.size .blockSequenceStart
    let s ← { s with keyAllowed := true }.dropPending
    return s.mark .blockEntry 1

/-- A question mark before a key. -/
def scanKey (s : Scanner) : Except ReadError Scanner := do
  if !s.inFlow && !s.keyAllowed then .error .malformed
  else
    let s := if s.inFlow then s else s.openBlock s.cursor.column s.tokens.size .blockMappingStart
    let s ← { s with keyAllowed := !s.inFlow }.dropPending
    return s.mark .key 1

/-- A colon before a value. -/
def scanValue (s : Scanner) : Except ReadError Scanner := do
  match s.pending.lookup s.flow with
  | some k =>
    let s := { s with pending := s.pending.filter (·.1 != s.flow) }
    let s := s.insertAt k.position .key
    let s := if s.inFlow then s else s.openBlock k.column k.position .blockMappingStart
    return { s with keyAllowed := false }.mark .value 1
  | none =>
    if !s.inFlow && !s.keyAllowed then .error .malformed
    else
      let s := if s.inFlow then s else s.openBlock s.cursor.column s.tokens.size .blockMappingStart
      let s ← { s with keyAllowed := !s.inFlow }.dropPending
      return s.mark .value 1

/-- A text in quotes. -/
def scanQuoted (s : Scanner) (quote : Char) : Except ReadError Scanner := do
  let s ← s.savePending
  let (text, c) ← quotedText quote s.cursor
  return { s with cursor := c, keyAllowed := false }.push (.scalar (text.map String.ofList) false)

/-- A block text. -/
def scanBlockText (s : Scanner) : Except ReadError Scanner := do
  let s ← { s with keyAllowed := true }.dropPending
  let (text, c) ← blockText s.indent s.cursor
  return { s with cursor := c }.push (.scalar (some (String.ofList text)) false)

/-- A plain text. -/
def scanPlain (s : Scanner) : Except ReadError Scanner := do
  let s ← s.savePending
  let (text, c, broke) := plainText s.inFlow s.indent s.cursor
  return { s with cursor := c, keyAllowed := broke }.push (.scalar (some (String.ofList text)) true)

/-- Whether a plain text starts with `x` that is followed by `y`. -/
def startsPlain (inFlow : Bool) (x : Char) (y : Option Char) : Bool :=
  !(endsWord (some x) || "-?:,[]\x7b\x7d#&*!|>'\"%@\x60".toList.contains x) ||
    (!endsWord y && (x == '-' || (!inFlow && (x == '?' || x == ':'))))

/-- Scans one token. Nothing is left at the end of the text. -/
def step (s : Scanner) : Except ReadError (Scanner × Bool) := do
  let s := s.skipGap (s.cursor.rest.length + 1)
  let s ← s.dropStale
  let s := s.unwindTo s.cursor.column
  let c := s.cursor
  let more (r : Except ReadError Scanner) : Except ReadError (Scanner × Bool) := r.map (·, true)
  match c.rest with
  | [] =>
    let s := s.unwindTo (-1)
    let s ← s.dropPending
    return (s.push .streamEnd, false)
  | x :: r =>
    let y := r.head?
    if x == '\x00' then .error .malformed
    else if x == '%' && c.column == 0 then more s.scanDirective
    else if c.column == 0 && c.atMarker then
      more (s.scanMarker (if x == '-' then .documentStart else .documentEnd))
    else if x == '[' then more (s.openFlow .flowSequenceStart)
    else if x == '\x7b' then more (s.openFlow .flowMappingStart)
    else if x == ']' then more (s.closeFlow .flowSequenceEnd)
    else if x == '\x7d' then more (s.closeFlow .flowMappingEnd)
    else if x == ',' then more do
      let s ← { s with keyAllowed := true }.dropPending
      return s.mark .flowEntry 1
    else if x == '-' && endsWord y then more s.scanBlockEntry
    else if x == '?' && (s.inFlow || endsWord y) then more s.scanKey
    else if x == ':' && (s.inFlow || endsWord y) then more s.scanValue
    else if x == '*' then more (s.scanName .alias)
    else if x == '&' then more (s.scanName .anchor)
    else if x == '!' then more s.scanTag
    else if (x == '|' || x == '>') && !s.inFlow then more s.scanBlockText
    else if x == '\'' || x == '"' then more (s.scanQuoted x)
    else if startsPlain s.inFlow x y then more s.scanPlain
    else .error .malformed

/-- Scans to the end of the text. -/
def finish (s : Scanner) (fuel : Nat) : Except ReadError (List Token) :=
  match fuel with
  | 0 => .error .malformed
  | fuel + 1 => do
    let (s, more) ← s.step
    if more then s.finish fuel else return s.tokens.toList

end Scanner

/-- The characters that a document may hold. -/
def isPrintable (c : Char) : Bool :=
  let n := c.toNat
  n == 0x09 || n == 0x0a || n == 0x0d || (0x20 ≤ n && n ≤ 0x7e) || n == 0x85 ||
    (0xa0 ≤ n && n ≤ 0xd7ff) || (0xe000 ≤ n && n ≤ 0xfffd) || 0x10000 ≤ n

/-- The tokens of a document. -/
def tokens (s : List Char) : Except ReadError (List Token) :=
  if s.all isPrintable then (Scanner.start s).finish (2 * s.length + 2) else .error .malformed

end Ratchet.Yaml
