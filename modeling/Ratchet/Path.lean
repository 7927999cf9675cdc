import Ratchet.Text.Blank
import Ratchet.Text.Search

/-!
Paths as text.

A path is absolute when it starts with a slash. Its normal form has no empty component, no `.` and
no `..` that follows another component; two slashes at the start, and no more, are kept.
`Path.within?` accepts the paths that stay at or below a root.
-/

namespace Ratchet.Path

/-- Whether a path starts at the root. -/
def isAbsolute (s : String) : Bool := s.toList.head? == some '/'

/-- The components between slashes, empty ones included. -/
def components (s : String) : List String := (Text.splitAtChar '/' s.toList).map String.ofList

/-- The path of components with slashes between them. -/
def ofComponents (cs : List String) : String := String.ofList (Text.joinWith ['/'] (cs.map String.toList))

/-- `b` seen from `a`: an absolute `b` stands alone. -/
def join (a b : String) : String :=
  if isAbsolute b then b
  else if a.isEmpty || a.toList.getLast? == some '/' then a ++ b
  else a ++ "/" ++ b

/-- One more component on a stack of normal components, the innermost first. -/
def pushComponent (rooted : Bool) (stack : List String) (c : String) : List String :=
  if c == "" || c == "." then stack
  else if c != ".." then c :: stack
  else match stack with
    | [] => if rooted then [] else [".."]
    | d :: r => if d == ".." then ".." :: stack else r

/-- The components of the normal form. -/
def normalComponents (rooted : Bool) (cs : List String) : List String :=
  (cs.foldl (pushComponent rooted) []).reverse

/-- The slashes that the normal form of a path starts with. -/
def leadingSlashes (s : String) : String :=
  match s.toList with
  | '/' :: '/' :: '/' :: _ => "/"
  | '/' :: '/' :: _ => "//"
  | '/' :: _ => "/"
  | _ => ""

/-- The normal form of a path. -/
def normal (s : String) : String :=
  let n := leadingSlashes s ++ ofComponents (normalComponents (isAbsolute s) (components s))
  if n.isEmpty then "." else n

/-- The normal form of a path seen from the directory `here`. -/
def absolute (here s : String) : String := normal (join here s)

theorem isAbsolute_root : isAbsolute "/" = true := by decide

theorem isAbsolute_append {a : String} (b : String) (ha : isAbsolute a = true) :
    isAbsolute (a ++ b) = true := by
  obtain ⟨l, hl⟩ := List.head?_eq_some_iff.1 (beq_iff_eq.1 ha)
  simp [isAbsolute, String.toList_append, hl]

theorem isAbsolute_join {a : String} (b : String) (ha : isAbsolute a = true) :
    isAbsolute (join a b) = true := by
  unfold join
  split
  · assumption
  · split
    · exact isAbsolute_append b ha
    · rw [String.append_assoc]
      exact isAbsolute_append _ ha

theorem isAbsolute_leadingSlashes {s : String} (h : isAbsolute s = true) :
    isAbsolute (leadingSlashes s) = true := by
  obtain ⟨l, hl⟩ := List.head?_eq_some_iff.1 (beq_iff_eq.1 h)
  unfold leadingSlashes
  rw [hl]
  split
  · rfl
  · rfl
  · rfl
  · rename_i hne
    exact absurd rfl (hne l)

theorem isAbsolute_normal {s : String} (h : isAbsolute s = true) : isAbsolute (normal s) = true := by
  have hn := isAbsolute_append (ofComponents (normalComponents (isAbsolute s) (components s)))
    (isAbsolute_leadingSlashes h)
  simp only [normal]
  split
  · rename_i he
    rw [String.isEmpty_iff.1 he] at hn
    exact absurd hn nofun
  · exact hn

/-- What is seen from an absolute path is absolute. -/
theorem isAbsolute_absolute {here : String} (s : String) (h : isAbsolute here = true) :
    isAbsolute (absolute here s) = true :=
  isAbsolute_normal (isAbsolute_join s h)

/-- What stands before and after the last slash. -/
def splitLast (s : String) : String × String :=
  let cs := s.toList
  let name := (cs.reverse.takeWhile (· != '/')).reverse
  let head := cs.take (cs.length - name.length)
  let head := if head.all (· == '/') then head else Text.dropEndWhile (· == '/') head
  (String.ofList head, String.ofList name)

/-- The path of the directory that holds the last component. -/
def parent (s : String) : String := (splitLast s).1

/-- The last component. -/
def name (s : String) : String := (splitLast s).2

/-- Whether `path` is `root` or starts with `root` and a slash. -/
def isBelow (root path : String) : Bool :=
  path == root || (root ++ "/").toList.isPrefixOf path.toList

/-- The normal form of `path` seen from the directory `root`, if it stays at or below it. -/
def within? (here root path : String) : Option String :=
  let root := absolute here root
  let p := normal (join root path)
  if isBelow root p then some p else none

/-- The text without the prefixes `./`. -/
def dropDots : List Char → List Char
  | '.' :: '/' :: r => dropDots r
  | s => s

/-- A messy path as a path seen from the workspace: without blanks and quotes around it, with forward
slashes, and without the workspace's own path in front. -/
def clean (here workspace raw : String) : String :=
  let p := Text.trimWhile (fun c => c == '\'' || c == '"') (Text.trimList raw.toList)
  let p := Text.replaceChar '\\' '/' p
  let p :=
    if workspace.isEmpty then p
    else
      let ws := Text.replaceChar '\\' '/' (absolute here workspace).toList
      let ws := Text.dropEndWhile (· == '/') ws ++ ['/']
      (Text.dropStart? ws p).getD p
  String.ofList (dropDots p)

end Ratchet.Path
