/-!
How alike two words are.

Two words share blocks of characters: the longest common block first, then the longest ones to its
left and to its right, and so on. Words are close when the shared blocks hold enough of their
characters. This finds what someone meant who wrote something slightly different.
-/

namespace Ratchet.Text

/-- The length of the longest common start of two texts. -/
def commonStart : List Char → List Char → Nat
  | a :: as, b :: bs => if a == b then commonStart as bs + 1 else 0
  | _, _ => 0

/-- A block that two texts share: where it starts in either, and its length. -/
structure Block where
  left : Nat
  right : Nat
  size : Nat
  deriving DecidableEq, Repr

/-- The longest block that two texts share; of several the one that starts first in the left text, and
then in the right one. -/
def longestBlock (a b : List Char) : Block :=
  let blocks := (List.range a.length).flatMap fun i => (List.range b.length).map fun j =>
    Block.mk i j (commonStart (a.drop i) (b.drop j))
  blocks.foldl (fun best x => if best.size < x.size then x else best) ⟨0, 0, 0⟩

/-- How many characters lie in shared blocks, when blocks are sought `depth` levels deep. -/
def sharedFrom : Nat → List Char → List Char → Nat
  | 0, _, _ => 0
  | depth + 1, a, b =>
    let x := longestBlock a b
    if x.size == 0 then 0
    else
      x.size + sharedFrom depth (a.take x.left) (b.take x.right) +
        sharedFrom depth (a.drop (x.left + x.size)) (b.drop (x.right + x.size))

/-- How many characters of two texts lie in shared blocks. A level takes a character at least, so that
there are no more levels than characters. -/
def sharedCount (a b : List Char) : Nat := sharedFrom a.length a b

/-- Whether at least three fifths of the characters of two texts lie in shared blocks. -/
def isClose (a b : List Char) : Bool := 3 * (a.length + b.length) ≤ 10 * sharedCount a b

/-- How many close words are offered at most. -/
def offered : Nat := 3

/-- Whether a word comes before another among those that are close to `word`: the one that shares more,
and of two equals the later one in the order of texts. -/
def closerTo (word a b : String) : Bool :=
  let share (x : String) := sharedCount x.toList word.toList
  let total (x : String) := x.length + word.length
  let (m, n) := (share a * total b, share b * total a)
  n < m || (m == n && b ≤ a)

/-- The words of a list that are closest to `word`, in the order of texts. -/
def closeWords (word : String) (words : List String) : List String :=
  let near := words.filter fun w => isClose w.toList word.toList
  ((near.mergeSort (closerTo word)).take offered).mergeSort (· ≤ ·)

end Ratchet.Text
