import Ratchet.Text.HiddenTable

/-!
Quoted texts, as they appear inside messages.

A text stands between single quotes, or between double quotes when it holds a single quote and no
double one. The quote and the backslash are escaped, tab and line ends have letters, and every
other hidden character is written by its code point in two, four or eight hexadecimal digits.
-/

namespace Ratchet.Text

/-- The lower-case hexadecimal digits of `n`, padded with zeros to `width`. -/
def hexPadded (width n : Nat) : List Char :=
  let ds := Nat.toDigits 16 n
  List.replicate (width - ds.length) '0' ++ ds

/-- One character as it is written between `quote`s. -/
def quotedChar (quote c : Char) : List Char :=
  if c == quote || c == '\\' then ['\\', c]
  else if c == '\t' then ['\\', 't']
  else if c == '\n' then ['\\', 'n']
  else if c == '\r' then ['\\', 'r']
  else if isHidden c then
    let n := c.toNat
    if n < 0x100 then '\\' :: 'x' :: hexPadded 2 n
    else if n < 0x10000 then '\\' :: 'u' :: hexPadded 4 n
    else '\\' :: 'U' :: hexPadded 8 n
  else [c]

/-- The quote that a text is written with. -/
def quoteFor (s : List Char) : Char :=
  if s.contains '\'' && !s.contains '"' then '"' else '\''

/-- The text between quotes. -/
def quoted (s : String) : String :=
  let q := quoteFor s.toList
  String.ofList (q :: s.toList.flatMap (quotedChar q) ++ [q])

end Ratchet.Text
