/-!
Cutting a text at a separator, and finding and replacing a part of it.
-/

namespace Ratchet.Text

/-- What stands before and after the first occurrence of `sep`. -/
def cutFirst? (sep : List Char) : List Char → Option (List Char × List Char)
  | [] => if sep.isEmpty then some ([], []) else none
  | c :: s =>
    if sep.isPrefixOf (c :: s) then some ([], (c :: s).drop sep.length)
    else (cutFirst? sep s).map fun (a, b) => (c :: a, b)

/-- Whether `part` occurs in the text. -/
def occursIn (part : List Char) : List Char → Bool
  | [] => part.isEmpty
  | c :: s => part.isPrefixOf (c :: s) || occursIn part s

/-- The pieces between the occurrences of one character; there is always at least one. -/
def splitAtChar (sep : Char) : List Char → List (List Char)
  | [] => [[]]
  | c :: s =>
    if c == sep then [] :: splitAtChar sep s
    else match splitAtChar sep s with
      | [] => [[c]]
      | p :: ps => (c :: p) :: ps

/-- The texts with `sep` between them. -/
def joinWith (sep : List Char) : List (List Char) → List Char
  | [] => []
  | [s] => s
  | s :: r => s ++ sep ++ joinWith sep r

/-- The text with one character for another. -/
def replaceChar (a b : Char) (s : List Char) : List Char := s.map fun c => if c == a then b else c

/-- The text after `start`, when it starts so. -/
def dropStart? (start s : List Char) : Option (List Char) :=
  if start.isPrefixOf s then some (s.drop start.length) else none

theorem splitAtChar_ne_nil (sep : Char) (s : List Char) : splitAtChar sep s ≠ [] := by
  cases s with
  | nil => simp [splitAtChar]
  | cons c s =>
    simp only [splitAtChar]
    split
    · simp
    · split <;> simp

/-- Joining the pieces with the separator gives the text back. -/
theorem joinWith_splitAtChar (sep : Char) (s : List Char) :
    joinWith [sep] (splitAtChar sep s) = s := by
  induction s with
  | nil => rfl
  | cons c s ih =>
    have hne := splitAtChar_ne_nil sep s
    simp only [splitAtChar]
    split
    · rename_i h
      cases hs : splitAtChar sep s with
      | nil => exact absurd hs hne
      | cons p ps => rw [hs] at ih; simp [joinWith, ih, beq_iff_eq.1 h]
    · cases hs : splitAtChar sep s with
      | nil => exact absurd hs hne
      | cons p ps =>
        rw [hs] at ih
        cases ps with
        | nil => simp only [joinWith] at ih ⊢; rw [ih]
        | cons q qs => simp only [joinWith, List.cons_append] at ih ⊢; rw [ih]

end Ratchet.Text
