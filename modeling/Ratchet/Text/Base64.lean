/-!
Bytes as text in base 64: six bits to a letter, four letters to three bytes, and equals signs for
what the last group lacks.
-/

namespace Ratchet.Text.Base64

/-- The letters by value. -/
def alphabet : List Char := "ABCDEFGHIJKLMNOPQRSTUVWXYZabcdefghijklmnopqrstuvwxyz0123456789+/".toList

/-- The value of a letter. -/
def value? (c : Char) : Option Nat :=
  if 'A' ≤ c && c ≤ 'Z' then some (c.toNat - 65)
  else if 'a' ≤ c && c ≤ 'z' then some (c.toNat - 71)
  else if c.isDigit then some (c.toNat + 4)
  else if c == '+' then some 62
  else if c == '/' then some 63
  else none

/-- The letter of a value. -/
def letter (n : Nat) : Char := alphabet.getD n 'A'

/-- Decodes a text. `bits` is what is left of the last group, of which `place` letters have come, and `pads`
counts the equals signs since the last letter. Characters that are no letters do not count, and enough
equals signs after at least two letters end the text. -/
def decodeFrom (place bits pads : Nat) (done : List UInt8) : List Char → Option (List UInt8)
  | [] => if place == 0 then some done else none
  | c :: s =>
    if c == '=' then
      if 2 ≤ place then
        if 4 ≤ place + pads + 1 then some done else decodeFrom place bits (pads + 1) done s
      else decodeFrom place bits pads done s
    else match value? c with
      | none => decodeFrom place bits pads done s
      | some v => match place with
        | 0 => decodeFrom 1 v 0 done s
        | 1 => decodeFrom 2 (v % 16) 0 (UInt8.ofNat (bits * 4 + v / 16) :: done) s
        | 2 => decodeFrom 3 (v % 4) 0 (UInt8.ofNat (bits * 16 + v / 4) :: done) s
        | _ => decodeFrom 0 0 0 (UInt8.ofNat (bits * 64 + v) :: done) s

/-- The bytes that a text encodes. -/
def decode? (s : List Char) : Option ByteArray :=
  (decodeFrom 0 0 0 [] s).map fun bs => ⟨bs.reverse.toArray⟩

/-- The text that encodes bytes. -/
def encodeList : List UInt8 → List Char
  | [] => []
  | [a] => [letter (a.toNat / 4), letter (a.toNat % 4 * 16), '=', '=']
  | [a, b] => [letter (a.toNat / 4), letter (a.toNat % 4 * 16 + b.toNat / 16), letter (b.toNat % 16 * 4), '=']
  | a :: b :: c :: r =>
    letter (a.toNat / 4) :: letter (a.toNat % 4 * 16 + b.toNat / 16) ::
      letter (b.toNat % 16 * 4 + c.toNat / 64) :: letter (c.toNat % 64) :: encodeList r

/-- The text that encodes bytes. -/
def encode (b : ByteArray) : String := String.ofList (encodeList b.toList)

end Ratchet.Text.Base64
