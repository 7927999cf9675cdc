/-!
Blank characters, and trimming them.

A blank is a character that Unicode marks as white space or as a paragraph, segment or
block separator. Trimming takes blanks off both ends and leaves everything between.
-/

namespace Ratchet.Text

/-- White space and separators: the tab group, the information separators, the space, the next-line
control, and the spaces of the general punctuation block and its neighbours. -/
def isBlank (c : Char) : Bool :=
  let n := c.toNat
  (0x09 ≤ n && n ≤ 0x0d) || (0x1c ≤ n && n ≤ 0x20) || n == 0x85 || n == 0xa0 || n == 0x1680 ||
    (0x2000 ≤ n && n ≤ 0x200a) || n == 0x2028 || n == 0x2029 || n == 0x202f || n == 0x205f ||
    n == 0x3000

/-- A blank that is white space: the information separators are not. -/
def isSpace (c : Char) : Bool := isBlank c && !(0x1c ≤ c.toNat && c.toNat ≤ 0x1f)

/-- Every character that core calls white space is a blank. -/
theorem isBlank_of_isWhitespace {c : Char} (h : c.isWhitespace = true) : isBlank c = true := by
  simp only [Char.isWhitespace, Bool.or_eq_true, decide_eq_true_eq] at h
  rcases h with ((h | h) | h) | h <;> subst h <;> decide

/-- The text without what `p` accepts at its end. -/
def dropEndWhile (p : Char → Bool) (s : List Char) : List Char :=
  (s.reverse.dropWhile p).reverse

/-- The text without what `p` accepts at either end. -/
def trimWhile (p : Char → Bool) (s : List Char) : List Char :=
  dropEndWhile p (s.dropWhile p)

/-- The text without the blanks at its ends. -/
def trimList (s : List Char) : List Char := trimWhile isBlank s

/-- The text without the blanks at its ends. -/
def trim (s : String) : String := String.ofList (trimList s.toList)

@[simp] theorem dropEndWhile_nil (p : Char → Bool) : dropEndWhile p [] = [] := rfl

@[simp] theorem trimList_nil : trimList [] = [] := rfl

end Ratchet.Text
