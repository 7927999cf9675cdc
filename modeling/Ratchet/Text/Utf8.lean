/-!
Bytes as text.

Strict reading takes well-formed UTF-8 only. Lenient reading puts the replacement character for
every longest piece that starts a character and cannot go on, and for every stray byte.
-/

namespace Ratchet.Text

/-- The text that well-formed bytes encode. -/
def decode? (b : ByteArray) : Option String := String.fromUTF8? b

/-- The bytes of a text. -/
def encode (s : String) : ByteArray := s.toUTF8

/-- How many bytes follow the first byte of a character, and the bounds of the second byte. -/
def leadByte (b : Nat) : Option (Nat × Nat × Nat) :=
  if 0xc2 ≤ b && b ≤ 0xdf then some (1, 0x80, 0xbf)
  else if b == 0xe0 then some (2, 0xa0, 0xbf)
  else if b == 0xed then some (2, 0x80, 0x9f)
  else if 0xe1 ≤ b && b ≤ 0xef then some (2, 0x80, 0xbf)
  else if b == 0xf0 then some (3, 0x90, 0xbf)
  else if b == 0xf4 then some (3, 0x80, 0x8f)
  else if 0xf1 ≤ b && b ≤ 0xf3 then some (3, 0x80, 0xbf)
  else none

/-- Reads on inside a character: `owed` bytes are missing, the next lies between `lo` and `hi`, and
`value` holds the bits so far. With nothing owed the reader stands between characters. -/
def lenientFrom (owed lo hi value : Nat) : List UInt8 → List Char
  | [] => if owed == 0 then [] else ['\ufffd']
  | u :: rest =>
    let b := u.toNat
    if owed == 0 || !(lo ≤ b && b ≤ hi) then
      let lost : List Char := if owed == 0 then [] else ['\ufffd']
      lost ++
        (if b < 0x80 then Char.ofNat b :: lenientFrom 0 0 0 0 rest
        else match leadByte b with
          | none => '\ufffd' :: lenientFrom 0 0 0 0 rest
          | some (n, l, h) => lenientFrom n l h (b % Nat.pow 2 (6 - n)) rest)
    else if owed == 1 then Char.ofNat (value * 64 + b % 64) :: lenientFrom 0 0 0 0 rest
    else lenientFrom (owed - 1) 0x80 0xbf (value * 64 + b % 64) rest

/-- The text of any bytes, with replacement characters where they are malformed. -/
def decodeLenient (b : ByteArray) : String := String.ofList (lenientFrom 0 0 0 0 b.toList)

/-- Where bytes stop being well-formed: the bounds of the piece that is not, and why it is not. -/
structure Malformed where
  start : Nat
  stop : Nat
  reason : String
  deriving DecidableEq, Repr

/-- Looks on inside a character that began at `start`, as `lenientFrom` does. -/
def malformedFrom (pos start owed lo hi : Nat) : List UInt8 → Option Malformed
  | [] => if owed == 0 then none else some ⟨start, pos, "unexpected end of data"⟩
  | u :: rest =>
    let b := u.toNat
    if owed == 0 then
      if b < 0x80 then malformedFrom (pos + 1) pos 0 0 0 rest
      else match leadByte b with
        | none => some ⟨pos, pos + 1, "invalid start byte"⟩
        | some (n, l, h) => malformedFrom (pos + 1) pos n l h rest
    else if lo ≤ b && b ≤ hi then malformedFrom (pos + 1) start (owed - 1) 0x80 0xbf rest
    else some ⟨start, pos, "invalid continuation byte"⟩

/-- The first malformed piece of bytes. -/
def malformed? (b : ByteArray) : Option Malformed := malformedFrom 0 0 0 0 0 b.toList

end Ratchet.Text
