/-!
The SHA-256 digest of a file's bytes, as 64 lower-case hexadecimal digits.
-/

namespace Ratchet.Digest

/-- The round constants. -/
def roundWords : List UInt32 := [
  0x428a2f98, 0x71374491, 0xb5c0fbcf, 0xe9b5dba5, 0x3956c25b, 0x59f111f1, 0x923f82a4, 0xab1c5ed5,
  0xd807aa98, 0x12835b01, 0x243185be, 0x550c7dc3, 0x72be5d74, 0x80deb1fe, 0x9bdc06a7, 0xc19bf174,
  0xe49b69c1, 0xefbe4786, 0x0fc19dc6, 0x240ca1cc, 0x2de92c6f, 0x4a7484aa, 0x5cb0a9dc, 0x76f988da,
  0x983e5152, 0xa831c66d, 0xb00327c8, 0xbf597fc7, 0xc6e00bf3, 0xd5a79147, 0x06ca6351, 0x14292967,
  0x27b70a85, 0x2e1b2138, 0x4d2c6dfc, 0x53380d13, 0x650a7354, 0x766a0abb, 0x81c2c92e, 0x92722c85,
  0xa2bfe8a1, 0xa81a664b, 0xc24b8b70, 0xc76c51a3, 0xd192e819, 0xd6990624, 0xf40e3585, 0x106aa070,
  0x19a4c116, 0x1e376c08, 0x2748774c, 0x34b0bcb5, 0x391c0cb3, 0x4ed8aa4a, 0x5b9cca4f, 0x682e6ff3,
  0x748f82ee, 0x78a5636f, 0x84c87814, 0x8cc70208, 0x90befffa, 0xa4506ceb, 0xbef9a3f7, 0xc67178f2]

/-- The eight words of a digest under construction. -/
structure State where
  a : UInt32
  b : UInt32
  c : UInt32
  d : UInt32
  e : UInt32
  f : UInt32
  g : UInt32
  h : UInt32
  deriving DecidableEq, Repr

/-- The state before the first block. -/
def State.start : State :=
  ⟨0x6a09e667, 0xbb67ae85, 0x3c6ef372, 0xa54ff53a, 0x510e527f, 0x9b05688c, 0x1f83d9ab, 0x5be0cd19⟩

/-- Word by word addition. -/
def State.add (s t : State) : State :=
  ⟨s.a + t.a, s.b + t.b, s.c + t.c, s.d + t.d, s.e + t.e, s.f + t.f, s.g + t.g, s.h + t.h⟩

/-- The words in order. -/
def State.words (s : State) : List UInt32 := [s.a, s.b, s.c, s.d, s.e, s.f, s.g, s.h]

/-- The word with its bits turned right by `n` places. -/
def turned (x n : UInt32) : UInt32 := (x >>> n) ||| (x <<< (32 - n))

/-- One round with the round constant `k` and the schedule word `w`. -/
def State.round (s : State) (k w : UInt32) : State :=
  let s1 := turned s.e 6 ^^^ turned s.e 11 ^^^ turned s.e 25
  let ch := (s.e &&& s.f) ^^^ (~~~s.e &&& s.g)
  let t1 := s.h + s1 + ch + k + w
  let s0 := turned s.a 2 ^^^ turned s.a 13 ^^^ turned s.a 22
  let maj := (s.a &&& s.b) ^^^ (s.a &&& s.c) ^^^ (s.b &&& s.c)
  ⟨t1 + (s0 + maj), s.a, s.b, s.c, s.d + t1, s.e, s.f, s.g⟩

/-- The word that follows sixteen schedule words, given the last of them first. -/
def nextWord (recent : List UInt32) : UInt32 :=
  let w (i : Nat) : UInt32 := recent.getD (i - 1) 0
  let s0 := turned (w 15) 7 ^^^ turned (w 15) 18 ^^^ (w 15 >>> 3)
  let s1 := turned (w 2) 17 ^^^ turned (w 2) 19 ^^^ (w 2 >>> 10)
  w 16 + s0 + w 7 + s1

/-- The schedule of a block, last word first. -/
def scheduleRev (block : List UInt32) : List UInt32 :=
  (List.range 48).foldl (fun ws _ => nextWord ws :: ws) block.reverse

/-- The state after one block of sixteen words. -/
def State.compress (s : State) (block : List UInt32) : State :=
  s.add ((roundWords.zip (scheduleRev block).reverse).foldl (fun t (k, w) => t.round k w) s)

/-- Big-endian words of four bytes; a shorter rest is dropped. -/
def toWords : List UInt8 → List UInt32
  | p :: q :: r :: s :: rest =>
    ((p.toUInt32 <<< 24) ||| (q.toUInt32 <<< 16) ||| (r.toUInt32 <<< 8) ||| s.toUInt32) :: toWords rest
  | _ => []

/-- What follows the message: a one bit, zeros up to a whole block, and the length in bits. -/
def padding (size : Nat) : List UInt8 :=
  let zeros := (119 - size % 64) % 64
  0x80 :: List.replicate zeros 0 ++
    (List.range 8).map fun i => UInt8.ofNat (size * 8 / Nat.pow 256 (7 - i))

/-- The state after the words, sixteen at a time; `blocks` bounds their number. -/
def State.absorb (s : State) (blocks : Nat) (words : List UInt32) : State :=
  match blocks with
  | 0 => s
  | n + 1 => if words.isEmpty then s else (s.compress (words.take 16)).absorb n (words.drop 16)

/-- A word as eight hexadecimal digits. -/
def hexWord (w : UInt32) : List Char :=
  let ds := Nat.toDigits 16 w.toNat
  List.replicate (8 - ds.length) '0' ++ ds

/-- The digest of a file's bytes. -/
def sha256 (bytes : ByteArray) : String :=
  let words := toWords (bytes.toList ++ padding bytes.size)
  String.ofList ((State.start.absorb (words.length / 16) words).words.flatMap hexWord)

end Ratchet.Digest
