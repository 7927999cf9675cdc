/-!
Wildcards.

In a pattern a star stands for any text, a question mark for any character, and brackets for one
character of a set, or of none of it when the set starts with an exclamation mark. A set lists
characters and ranges; a closing bracket that comes first belongs to it. An opening bracket that is
never closed stands for itself.
-/

namespace Ratchet.Text.Wildcard

/-- A part of a pattern. -/
inductive Part
  | exact (c : Char)
  | any
  | many
  | oneOf (negated : Bool) (ranges : List (Char × Char))
  deriving DecidableEq, Repr

/-- The ranges of a set; a character alone is a range of one. -/
def ranges : List Char → List (Char × Char)
  | [] => []
  | a :: '-' :: b :: r => if a ≤ b then (a, b) :: ranges r else ranges r
  | a :: r => (a, a) :: ranges r

/-- The set that follows an opening bracket, and what follows the set. -/
def set? (s : List Char) : Option (Part × List Char) :=
  let (negated, s) := match s with
    | '!' :: r => (true, r)
    | _ => (false, s)
  let (first, r) := match s with
    | ']' :: r => ([']'], r)
    | _ => ([], s)
  let body := r.takeWhile (· != ']')
  match r.dropWhile (· != ']') with
  | [] => none
  | _ :: rest => some (.oneOf negated (ranges (first ++ body)), rest)

/-- The parts of a pattern, read with one step for each of its characters. -/
def partsFrom (fuel : Nat) (s : List Char) : List Part :=
  match fuel, s with
  | 0, _ => []
  | _, [] => []
  | fuel + 1, c :: r =>
    if c == '*' then .many :: partsFrom fuel r
    else if c == '?' then .any :: partsFrom fuel r
    else if c == '[' then
      match set? r with
      | some (p, rest) => p :: partsFrom fuel rest
      | none => .exact c :: partsFrom fuel r
    else .exact c :: partsFrom fuel r

/-- The parts of a pattern. -/
def parts (pattern : List Char) : List Part := partsFrom pattern.length pattern

/-- Whether one character fits a part that stands for one. -/
def fitsOne (p : Part) (c : Char) : Bool :=
  match p with
  | .exact d => c == d
  | .any => true
  | .many => false
  | .oneOf negated rs => (rs.any fun (a, b) => a ≤ c && c ≤ b) != negated

/-- Whether a text fits parts. -/
def fits : List Part → List Char → Bool
  | [], s => s.isEmpty
  | .many :: ps, [] => fits ps []
  | .many :: ps, c :: s => fits ps (c :: s) || fits (.many :: ps) s
  | _ :: _, [] => false
  | p :: ps, c :: s => fitsOne p c && fits ps s
termination_by ps s => ps.length + s.length

/-- Whether a text holds one of the characters that make a pattern. -/
def isPattern (s : List Char) : Bool := s.any fun c => c == '*' || c == '?' || c == '['

/-- Whether a name fits a pattern. A name that starts with a dot fits only a pattern that does. -/
def fitsName (pattern name : List Char) : Bool :=
  (pattern.head? == some '.' || name.head? != some '.') && fits (parts pattern) name

end Ratchet.Text.Wildcard
