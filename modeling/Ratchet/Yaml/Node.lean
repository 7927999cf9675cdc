import Ratchet.Yaml.Plain
import Ratchet.Yaml.Token

/-!
The tree of a configuration document.

A node is a text, a sequence or a mapping, each with the tag that was written for it or that it has by
its look. An alias stands for the node that carries its anchor; inside of that node it stands for an
empty one of the same kind.
-/

namespace Ratchet.Yaml

/-- A node. A text that half of a surrogate pair is in is not kept. -/
inductive Node
  | scalar (tag : Tag) (text : Option String)
  | sequence (tag : Tag) (items : List Node)
  | mapping (tag : Tag) (pairs : List (Node × Node))
  deriving Inhabited

namespace Node

/-- What a node denotes. -/
def tag : Node → Tag
  | scalar t _ | sequence t _ | mapping t _ => t

/-- What a collection denotes. A lone exclamation mark is no tag of its own. -/
def collectionTag (written : Option String) (own : Tag) : Tag :=
  match written with
  | none | some "!" => own
  | some t => Tag.ofName t

/-- A text as it was written. After a lone exclamation mark a quoted text counts as a plain one. -/
def ofText (written : Option String) (t : Option String) (plain : Bool) : Node :=
  let looks : Tag := (t.map Plain.tag).getD .text
  match written with
  | none => .scalar (if plain then looks else .text) t
  | some "!" => .scalar looks t
  | some name => .scalar (Tag.ofName name) t

/-- An empty text. -/
def empty (written : Option String) : Node := ofText written (some "") true

/-- What is left to read and what has been named so far. -/
structure Reading where
  rest : List Token
  anchors : List (String × Node)
  handles : List (String × String)
  /-- The number of collections around the place. -/
  depth : Nat := 0

namespace Reading

/-- The next token. -/
def peek (s : Reading) : Token := s.rest.headD .streamEnd

/-- Behind the next token. -/
def next (s : Reading) : Reading := { s with rest := s.rest.drop 1 }

/-- The number of collections that may stand around a place. -/
def maxDepth : Nat := 482

/-- The same place, one collection further in. -/
def deeper (s : Reading) : Except ReadError Reading :=
  if maxDepth ≤ s.depth then .error .tooDeep else .ok { s with depth := s.depth + 1 }

/-- The same place, one collection further out. -/
def back (s : Reading) : Reading := { s with depth := s.depth - 1 }

end Reading

/-- Reads a part of the tree. -/
abbrev Part (α : Type) := Except ReadError (α × Reading)

/-- The tag that a handle and a suffix stand for. -/
def resolveTag (s : Reading) (handle : Option String) (suffix : String) : Except ReadError String :=
  match handle with
  | none => .ok suffix
  | some h => match s.handles.lookup h with
    | some start => .ok (start ++ suffix)
    | none => .error .malformed

/-- The anchor and the tag before a node, in either order. -/
def properties (s : Reading) : Except ReadError (Option String × Option String × Reading) :=
  match s.peek with
  | .anchor a =>
    let s := s.next
    match s.peek with
    | .tag h t => do return (some a, some (← resolveTag s h t), s.next)
    | _ => .ok (some a, none, s)
  | .tag h t => do
    let tag ← resolveTag s h t
    let s := s.next
    match s.peek with
    | .anchor a => return (some a, some tag, s.next)
    | _ => return (none, some tag, s)
  | _ => .ok (none, none, s)

/-- Names a node by its anchor; an anchor names one node only. -/
def named (anchor : Option String) (n : Node) (s : Reading) : Except ReadError Reading :=
  match anchor with
  | none => .ok s
  | some a =>
    if (s.anchors.lookup a).isSome then .error .malformed
    else .ok { s with anchors := (a, n) :: s.anchors }

/-- The anchor of a node names the node now. -/
def renamed (anchor : Option String) (n : Node) (s : Reading) : Reading :=
  match anchor with
  | none => s
  | some a => { s with anchors := (a, n) :: s.anchors }

/-- Where a node stands: in block context, as the value of a block mapping, or in flow context. -/
inductive Place
  | block
  | blockValue
  | flow
  deriving DecidableEq, Repr

mutual

/-- Reads one node. -/
def read (fuel : Nat) (place : Place) (s : Reading) : Except ReadError (Node × Reading) :=
  match fuel with
  | 0 => .error .malformed
  | fuel + 1 =>
    match s.peek with
    | .alias a => match s.anchors.lookup a with
      | some n => .ok (n, s.next)
      | none => .error .malformed
    | _ => do
      let (anchor, tag, s) ← properties s
      let text (t : Option String) (plain : Bool) (s : Reading) : Except ReadError (Node × Reading) := do
        let n := ofText tag t plain
        return (n, ← named anchor n s)
      let sequence (items : Reading → Except ReadError (List Node × Reading)) : Except ReadError (Node × Reading) := do
        let t := collectionTag tag .list
        let (ns, s) ← items (← (← named anchor (.sequence t []) s).deeper)
        return (.sequence t ns, renamed anchor (.sequence t ns) s.back)
      let mapping (pairs : Reading → Except ReadError (List (Node × Node) × Reading)) :
          Except ReadError (Node × Reading) := do
        let t := collectionTag tag .map
        let (ps, s) ← pairs (← (← named anchor (.mapping t []) s).deeper)
        return (.mapping t ps, renamed anchor (.mapping t ps) s.back)
      match s.peek, place with
      | .blockEntry, .blockValue => sequence (readIndentless fuel)
      | .scalar t plain, _ => text t plain s.next
      | .flowSequenceStart, _ => sequence fun s => readFlowItems fuel true s.next
      | .flowMappingStart, _ => mapping fun s => readFlowPairs fuel true s.next
      | .blockSequenceStart, .block | .blockSequenceStart, .blockValue =>
        sequence fun s => readBlockItems fuel s.next
      | .blockMappingStart, .block | .blockMappingStart, .blockValue =>
        mapping fun s => readBlockPairs fuel s.next
      | _, _ =>
        if anchor.isSome || tag.isSome then text (some "") true s else .error .malformed

/-- Reads the items of a block sequence and its end. -/
def readBlockItems (fuel : Nat) (s : Reading) : Except ReadError (List Node × Reading) :=
  match fuel with
  | 0 => .error .malformed
  | fuel + 1 =>
    match s.peek with
    | .blockEntry => do
      let s := s.next
      let (n, s) ← match s.peek with
        | .blockEntry | .blockEnd => .ok (empty none, s)
        | _ => read fuel .block s
      let (ns, s) ← readBlockItems fuel s
      return (n :: ns, s)
    | .blockEnd => .ok ([], s.next)
    | _ => .error .malformed

/-- Reads the items of a sequence that is not indented below its key. -/
def readIndentless (fuel : Nat) (s : Reading) : Except ReadError (List Node × Reading) :=
  match fuel with
  | 0 => .error .malformed
  | fuel + 1 =>
    match s.peek with
    | .blockEntry => do
      let s := s.next
      let (n, s) ← match s.peek with
        | .blockEntry | .blockEnd | .key | .value => .ok (empty none, s)
        | _ => read fuel .block s
      let (ns, s) ← readIndentless fuel s
      return (n :: ns, s)
    | _ => .ok ([], s)

/-- Reads the pairs of a block mapping and its end. -/
def readBlockPairs (fuel : Nat) (s : Reading) : Except ReadError (List (Node × Node) × Reading) :=
  match fuel with
  | 0 => .error .malformed
  | fuel + 1 =>
    let inner (s : Reading) : Except ReadError (Node × Reading) :=
      match s.peek with
      | .key | .value | .blockEnd => .ok (empty none, s)
      | _ => read fuel .blockValue s
    match s.peek with
    | .key => do
      let (k, s) ← inner s.next
      let (v, s) ← match s.peek with
        | .value => inner s.next
        | _ => .ok (empty none, s)
      let (ps, s) ← readBlockPairs fuel s
      return ((k, v) :: ps, s)
    | .blockEnd => .ok ([], s.next)
    | _ => .error .malformed

/-- Reads the items of a flow sequence and its end. -/
def readFlowItems (fuel : Nat) (first : Bool) (s : Reading) : Except ReadError (List Node × Reading) :=
  match fuel with
  | 0 => .error .malformed
  | fuel + 1 =>
    match s.peek with
    | .flowSequenceEnd => .ok ([], s.next)
    | t => do
      let s ← if first then .ok s else match t with
        | .flowEntry => .ok s.next
        | _ => .error .malformed
      match s.peek with
      | .flowSequenceEnd => return ([], s.next)
      | .key =>
        let s := s.next
        let (k, s) ← match s.peek with
          | .value | .flowEntry | .flowSequenceEnd => .ok (empty none, s)
          | _ => read fuel .flow s
        let (v, s) ← match s.peek with
          | .value =>
            let s := s.next
            match s.peek with
            | .flowEntry | .flowSequenceEnd => .ok (empty none, s)
            | _ => read fuel .flow s
          | _ => .ok (empty none, s)
        let (ns, s) ← readFlowItems fuel false s
        return (.mapping .map [(k, v)] :: ns, s)
      | _ =>
        let (n, s) ← read fuel .flow s
        let (ns, s) ← readFlowItems fuel false s
        return (n :: ns, s)

/-- Reads the pairs of a flow mapping and its end. -/
def readFlowPairs (fuel : Nat) (first : Bool) (s : Reading) :
    Except ReadError (List (Node × Node) × Reading) :=
  match fuel with
  | 0 => .error .malformed
  | fuel + 1 =>
    match s.peek with
    | .flowMappingEnd => .ok ([], s.next)
    | t => do
      let s ← if first then .ok s else match t with
        | .flowEntry => .ok s.next
        | _ => .error .malformed
      match s.peek with
      | .flowMappingEnd => return ([], s.next)
      | .key =>
        let s := s.next
        let (k, s) ← match s.peek with
          | .value | .flowEntry | .flowMappingEnd => .ok (empty none, s)
          | _ => read fuel .flow s
        let (v, s) ← match s.peek with
          | .value =>
            let s := s.next
            match s.peek with
            | .flowEntry | .flowMappingEnd => .ok (empty none, s)
            | _ => read fuel .flow s
          | _ => .ok (empty none, s)
        let (ps, s) ← readFlowPairs fuel false s
        return ((k, v) :: ps, s)
      | _ =>
        let (k, s) ← read fuel .flow s
        let (ps, s) ← readFlowPairs fuel false s
        return ((k, empty none) :: ps, s)

end

/-- The handles that every document has. -/
def knownHandles : List (String × String) := [("!", "!"), ("!!", Tag.core)]

/-- Reads the directives before a document; each handle and the version are set once at most. -/
def readDirectives (version : Bool) (handles : List (String × String)) :
    List Token → Except ReadError (List (String × String) × List Token)
  | .directive (.version major) :: r =>
    if version || major != 1 then .error .malformed else readDirectives true handles r
  | .directive (.handle h start) :: r =>
    if (handles.lookup h).isSome then .error .malformed
    else readDirectives version ((h, start) :: handles) r
  | .directive .other :: r => readDirectives version handles r
  | ts => .ok (handles, ts)

/-- Whether tokens hold nothing but ends of documents. -/
def atEnd (ts : List Token) : Bool :=
  match ts.dropWhile (· == .documentEnd) with
  | [] | [.streamEnd] => true
  | _ => false

/-- The only document of a text; nothing if the text holds none. -/
def ofTokens? (ts : List Token) : Except ReadError (Option Node) := do
  let fuel := 4 * ts.length + 4
  let finish (s : Reading) (n : Node) : Except ReadError (Option Node) :=
    if atEnd s.rest then .ok (some n) else .error .malformed
  match ts with
  | .streamEnd :: _ | [] => return none
  | .directive _ :: _ | .documentStart :: _ =>
    let (handles, ts) ← readDirectives false [] ts
    match ts with
    | .documentStart :: ts =>
      let s : Reading := { rest := ts, anchors := [], handles := handles ++ knownHandles }
      match s.peek with
      | .directive _ | .documentStart | .documentEnd | .streamEnd => finish s (empty none)
      | _ =>
        let (n, s) ← read fuel .block s
        finish s n
    | _ => .error .malformed
  | _ =>
    let (n, s) ← read fuel .block { rest := ts, anchors := [], handles := knownHandles }
    finish s n

end Node

end Ratchet.Yaml
