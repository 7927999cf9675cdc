/-!
Letter case.

Two letters are the same up to case when they have one small form or one capital form. The four
letters outside the basic alphabet that fold onto it are the dotted capital I, the dotless small i,
the long s and the kelvin sign.
-/

namespace Ratchet.Text

/-- The small form of a basic letter; every other character is its own. -/
def small (c : Char) : Char := c.toLower

/-- The basic small letters that a character equals up to case. -/
def folded (c : Char) : Char :=
  match c.toNat with
  | 0x130 | 0x131 => 'i'
  | 0x17f => 's'
  | 0x212a => 'k'
  | _ => c.toLower

/-- Whether two characters are the same up to case; `p` is a basic character. -/
def sameLetter (p c : Char) : Bool := p.toLower == folded c

/-- The basic letters and the four that fold onto them. -/
def isLetter (c : Char) : Bool := (folded c).isAlpha

/-- The capital form of a character, spelled out where it has several letters. It is exact for every
character whose capital form holds a basic letter, and the character itself otherwise. -/
def capital (c : Char) : List Char :=
  match c.toNat with
  | 0xdf => ['S', 'S']
  | 0x131 => ['I']
  | 0x17f => ['S']
  | 0xfb00 => ['F', 'F']
  | 0xfb01 => ['F', 'I']
  | 0xfb02 => ['F', 'L']
  | 0xfb03 => ['F', 'F', 'I']
  | 0xfb04 => ['F', 'F', 'L']
  | 0xfb05 | 0xfb06 => ['S', 'T']
  | _ => [c.toUpper]

/-- The text in capitals. -/
def capitalized (s : List Char) : List Char := s.flatMap capital

/-- The text in small letters; only basic letters have another form here. -/
def lowered (s : List Char) : List Char := s.map small

/-- What stands after `p` at the start of the text, up to case. -/
def dropLetters? : List Char → List Char → Option (List Char)
  | [], s => some s
  | _ :: _, [] => none
  | p :: ps, c :: s => if sameLetter p c then dropLetters? ps s else none

end Ratchet.Text
