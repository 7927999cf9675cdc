import Ratchet.Text.Blank
import Ratchet.Text.Search

/-!
Import statements on one line.

`import`, an optional `type`, a clause, `from`, a quoted source and an optional semicolon, with
blanks between them. A line may be cut into these parts in several ways: the blanks take as much as
they can, `type` is taken before it is left to the clause, and the clause is as short as possible. A
clause binds at most one default name, one namespace and a list of names in braces.
-/

namespace Ratchet

/-- The parts of an import statement. -/
structure ImportLine where
  indent : List Char
  /-- `type` and the blanks after it, if it is there. -/
  typeMark : List Char
  clause : List Char
  /-- The source with its quotes. -/
  source : List Char
  /-- The semicolon, if it is there. -/
  semicolon : List Char
  deriving DecidableEq, Repr

namespace ImportLine

/-- What a reader of the end of a statement finds: source and semicolon. -/
structure Tail where
  source : List Char
  semicolon : List Char
  deriving DecidableEq, Repr

/-- Whether a character is a quote. -/
def isQuote (c : Char) : Bool := c == '\'' || c == '"'

/-- A quoted text with something in it, and what follows. -/
def source? : List Char → Option (List Char × List Char)
  | q :: s =>
    if isQuote q then
      match s.takeWhile (!isQuote ·), s.dropWhile (!isQuote ·) with
      | c :: body, e :: rest => some (q :: c :: body ++ [e], rest)
      | _, _ => none
    else none
  | [] => none

/-- An optional semicolon with blanks around it, and nothing else. -/
def semicolon? (s : List Char) : Option (List Char) :=
  match s.dropWhile Text.isBlank with
  | ';' :: r => if r.all Text.isBlank then some [';'] else none
  | [] => some []
  | _ => none

/-- The end of a statement: blanks, `from`, blanks, source, semicolon. -/
def tail? : List Char → Option Tail
  | [] => none
  | c :: s =>
    if Text.isBlank c then do
      let r ← Text.dropStart? "from".toList (s.dropWhile Text.isBlank)
      if (r.head?.map Text.isBlank).getD false then
        let (source, rest) ← source? (r.dropWhile Text.isBlank)
        return ⟨source, ← semicolon? rest⟩
      else none
    else none

/-- The shortest clause that the end of a statement follows. -/
def clause? : List Char → Option (List Char × Tail)
  | [] => none
  | c :: s =>
    if c == '\n' then none
    else match tail? s with
      | some t => some ([c], t)
      | none => (clause? s).map fun (cs, t) => (c :: cs, t)

/-- The first of `n`, `n - 1`, …, `1` for which `f` finds something. -/
def firstDown {α : Type} (f : Nat → Option α) : Nat → Option α
  | 0 => none
  | n + 1 => (f (n + 1)).or (firstDown f n)

/-- The statement after `import` and its blanks, with `type` taken or left to the clause. -/
def body? (indent s : List Char) : Option ImportLine :=
  let marked : Option ImportLine := do
    let r ← Text.dropStart? "type".toList s
    firstDown (fun j => (clause? (r.drop j)).map fun (c, t) =>
      ⟨indent, "type".toList ++ r.take j, c, t.source, t.semicolon⟩) (r.takeWhile Text.isBlank).length
  marked.or ((clause? s).map fun (c, t) => ⟨indent, [], c, t.source, t.semicolon⟩)

/-- The parts of a line that is an import statement. -/
def ofText? (line : List Char) : Option ImportLine := do
  let indent := line.takeWhile Text.isBlank
  let r ← Text.dropStart? "import".toList (line.dropWhile Text.isBlank)
  firstDown (fun k => body? indent (r.drop k)) (r.takeWhile Text.isBlank).length

/-! ## Bindings -/

/-- The names that a clause binds. -/
structure Bindings where
  default : Option (List Char)
  «namespace» : Option (List Char)
  named : List (List Char)
  deriving DecidableEq, Repr

namespace Bindings

/-- A part of a clause outside the braces: a namespace when it starts with a star, else the default. -/
def addPart (b : Bindings) (part : List Char) : Bindings :=
  match Text.trimList part with
  | [] => b
  | '*' :: r => { b with «namespace» := some ('*' :: r) }
  | p => { b with default := some p }

/-- The items between commas that are not blank. -/
def items (s : List Char) : List (List Char) :=
  ((Text.splitAtChar ',' s).map Text.trimList).filter (!·.isEmpty)

/-- The bindings of a clause. -/
def ofClause (clause : List Char) : Bindings :=
  let head := clause.takeWhile (· != '{')
  let braced := (clause.dropWhile (· != '{')).drop 1
  let named := items (braced.takeWhile (· != '}'))
  (Text.splitAtChar ',' head).foldl addPart ⟨none, none, named⟩

/-- All bindings, the default first. -/
def toList (b : Bindings) : List (List Char) := b.default.toList ++ b.namespace.toList ++ b.named

/-- The clause of bindings. -/
def clause (b : Bindings) : List Char :=
  let braced := if b.named.isEmpty then []
    else ["\x7b ".toList ++ Text.joinWith ", ".toList b.named ++ " \x7d".toList]
  Text.joinWith ", ".toList (b.default.toList ++ b.namespace.toList ++ braced)

end Bindings

/-- What stands after the last ` as `. -/
def afterAs (fuel : Nat) (s : List Char) : List Char :=
  match fuel with
  | 0 => s
  | fuel + 1 => match Text.cutFirst? " as ".toList s with
    | some (_, r) => afterAs fuel r
    | none => s

/-- The name by which a binding is known in the file. -/
def localName (entry : List Char) : List Char :=
  let e := Text.trimList entry
  let e := match Text.dropStart? "type ".toList e with
    | some r => Text.trimList r
    | none => e
  Text.trimList (afterAs e.length e)

/-- A line without some of its bindings: what is left of it, nothing if the whole statement goes, and
how many bindings went. -/
structure Rewritten where
  line : Option (List Char)
  removed : Nat
  deriving DecidableEq, Repr

/-- The bindings without those that are unused. -/
def Bindings.without (unused : List Char → Bool) (b : Bindings) : Bindings where
  default := b.default.filter (!unused ·)
  «namespace» := b.namespace.filter fun n => !unused (localName n)
  named := b.named.filter fun n => !unused (localName n)

/-- The text of a statement with a clause of its own. -/
def render (l : ImportLine) (clause : List Char) : List Char :=
  l.indent ++ "import ".toList ++ l.typeMark ++ clause ++ " from ".toList ++ l.source ++ l.semicolon

/-- The line without its unused bindings, or without all of them. A line that is no import statement
is left as it is. -/
def rewrite (unused : List Char → Bool) (dropAll : Bool) (line : List Char) : Rewritten :=
  match ofText? line with
  | none => ⟨some line, 0⟩
  | some l =>
    let b := Bindings.ofClause l.clause
    if dropAll then ⟨none, b.toList.length⟩
    else
      let kept := b.without unused
      let removed := b.toList.length - kept.toList.length
      if removed == 0 then ⟨some line, 0⟩
      else if kept.toList.isEmpty then ⟨none, removed⟩
      else ⟨some (l.render kept.clause), removed⟩

end ImportLine

end Ratchet
