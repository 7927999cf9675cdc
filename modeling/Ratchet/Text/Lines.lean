/-!
Lines of a text.

A line ends at a line feed, a carriage return, the two together, or at one of the other
separators that Unicode counts as mandatory breaks (line tabulation, form feed, the information
separators, next line, line separator, paragraph separator).
-/

namespace Ratchet.Text

/-- The characters that end a line. -/
def isLineBreak (c : Char) : Bool :=
  let n := c.toNat
  (0x0a ≤ n && n ≤ 0x0d) || (0x1c ≤ n && n ≤ 0x1e) || n == 0x85 || n == 0x2028 || n == 0x2029

/-- A line and the terminator that ends it, which is empty only for an unfinished last line. -/
structure Line where
  body : List Char
  ending : List Char
  deriving DecidableEq, Repr

namespace Line

/-- The line as it stands in the text. -/
def whole (l : Line) : List Char := l.body ++ l.ending

end Line

/-- Cuts a text into lines; `acc` holds the reversed start of the current one. -/
def linesFrom (acc : List Char) : List Char → List Line
  | [] => if acc.isEmpty then [] else [⟨acc.reverse, []⟩]
  | '\r' :: '\n' :: s => ⟨acc.reverse, ['\r', '\n']⟩ :: linesFrom [] s
  | c :: s =>
    if isLineBreak c then ⟨acc.reverse, [c]⟩ :: linesFrom [] s else linesFrom (c :: acc) s

/-- The lines of a text with their terminators. -/
def lines (s : List Char) : List Line := linesFrom [] s

/-- The lines of a text without their terminators. -/
def lineBodies (s : List Char) : List (List Char) := (lines s).map Line.body

theorem flatMap_whole_linesFrom (acc s : List Char) :
    (linesFrom acc s).flatMap Line.whole = acc.reverse ++ s := by
  fun_induction linesFrom acc s with
  | case1 acc h => simp_all
  | case2 acc h => simp [Line.whole]
  | case3 acc s ih => simp [Line.whole, ih]
  | case4 acc c s _ h ih => simp [Line.whole, ih]
  | case5 acc c s _ h ih => simp [ih]

/-- No character is lost: the lines in a row are the text. -/
theorem flatMap_whole_lines (s : List Char) : (lines s).flatMap Line.whole = s := by
  simpa [lines] using flatMap_whole_linesFrom [] s

/-- The text with every line terminator of the first two kinds, alone or together, as a line feed. -/
def unifyBreaks : List Char → List Char
  | [] => []
  | '\r' :: '\n' :: s => '\n' :: unifyBreaks s
  | c :: s => (if c == '\r' then '\n' else c) :: unifyBreaks s

end Ratchet.Text
