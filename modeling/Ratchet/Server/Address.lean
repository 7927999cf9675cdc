import Ratchet.Text.Search
import Ratchet.Text.Utf8

/-!
Addresses on a server: a path and, after a question mark, parameters. Dots in a path are followed
before percent signs are read, and a plus sign in a parameter stands for a space.
-/

namespace Ratchet.Address

/-- The value of a hexadecimal digit. -/
def hexValue? (c : Char) : Option Nat :=
  if c.isDigit then some (c.toNat - 48)
  else if 'a' ≤ c && c ≤ 'f' then some (c.toNat - 87)
  else if 'A' ≤ c && c ≤ 'F' then some (c.toNat - 55)
  else none

/-- The bytes of a text in which a percent sign and two digits stand for one byte. -/
def bytesOf : List Char → List UInt8
  | [] => []
  | '%' :: a :: b :: r =>
    match hexValue? a, hexValue? b with
    | some x, some y => UInt8.ofNat (16 * x + y) :: bytesOf r
    | _, _ => 37 :: bytesOf (a :: b :: r)
  | c :: r => (Text.encode (String.singleton c)).toList ++ bytesOf r
termination_by s => s.length

/-- The text with its percent signs read. -/
def decoded (s : List Char) : String := Text.decodeLenient ⟨(bytesOf s).toArray⟩

/-- One more segment on a stack of segments, the innermost first. -/
def pushSegment (stack : List (List Char)) (s : List Char) : List (List Char) :=
  if s == ['.'] then stack
  else if s == ['.', '.'] then (match stack with
    | [] => []
    | [e] => [e]
    | _ :: r => r)
  else s :: stack

/-- The path without segments that are dots. -/
def withoutDots (s : List Char) : List Char :=
  Text.joinWith ['/'] ((Text.splitAtChar '/' s).foldl pushSegment []).reverse

/-- A parameter: what stands before and after the first equals sign. -/
def parameter (s : List Char) : String × String :=
  let plain (cs : List Char) := decoded (Text.replaceChar '+' ' ' cs)
  match Text.cutFirst? ['='] s with
  | some (k, v) => (plain k, plain v)
  | none => (plain s, "")

/-- The path and the parameters of an address. -/
def split (address : String) : String × List (String × String) :=
  match Text.cutFirst? ['?'] address.toList with
  | some (p, q) => (decoded (withoutDots p), ((Text.splitAtChar '&' q).filter (!·.isEmpty)).map parameter)
  | none => (decoded (withoutDots address.toList), [])

end Ratchet.Address
