import Ratchet.Text.Base64
import Ratchet.Yaml.Node

/-!
The value of a configuration document.

The tag of a node says what it denotes. A mapping takes over the entries of the mappings that it merges,
and its own entries win.

A document is valued level by level: texts when the collection around them is, collections one level
later. So of several faults the one nearest to the root is told, and the first of those on one level.
-/

namespace Ratchet.Yaml

/-- What is found at a part of a document, or the fault nearest to the root with its level. -/
abbrev Found (α : Type) := Except (Nat × ReadError) α

namespace Found

/-- A fault on a level. -/
def fault {α : Type} (level : Nat) (e : ReadError) : Found α := .error (level, e)

/-- A break of the rules of the format on a level. -/
def malformed {α : Type} (level : Nat) : Found α := fault level .malformed

/-- What is found on a level without looking further down. -/
def on {α : Type} (level : Nat) (r : Except ReadError α) : Found α := r.mapError (level, ·)

/-- Two parts, the second after the first. -/
def both {α β : Type} (a : Found α) (b : Found β) : Found (α × β) :=
  match a, b with
  | .ok x, .ok y => .ok (x, y)
  | .error (i, e), .error (j, f) => if j < i then .error (j, f) else .error (i, e)
  | .error e, .ok _ => .error e
  | .ok _, .error e => .error e

/-- The parts of a row. -/
def all {α : Type} : List (Found α) → Found (List α)
  | [] => .ok []
  | x :: xs => (both x (all xs)).map fun (y, ys) => y :: ys

end Found

namespace Node

/-- The pairs of a mapping with those that it merges in front, and without the merge keys. -/
def flatPairs (fuel : Nat) (pairs : List (Node × Node)) : Except ReadError (List (Node × Node)) :=
  match fuel with
  | 0 => .error .malformed
  | fuel + 1 => do
    let merged ← pairs.mapM fun (k, v) =>
      if k.tag != .merge then .ok []
      else match v with
        | .mapping _ ps => flatPairs fuel ps
        | .sequence _ ns => do
          let parts ← ns.mapM fun n => match n with
            | .mapping _ ps => flatPairs fuel ps
            | _ => .error .malformed
          return parts.reverse.flatten
        | .scalar .. => .error .malformed
    return merged.flatten ++ pairs.filter fun (k, _) => k.tag != .merge

/-- A key that stands for a whole mapping elsewhere is a text in its own mapping. -/
def asKey : Node → Node
  | .scalar .defaultValue t => .scalar .text t
  | .sequence .defaultValue ns => .sequence .text ns
  | .mapping .defaultValue ps => .mapping .text ps
  | n => n

/-- Where a text is asked for: the text of the node, or the one that its default value leads to. -/
def text? (fuel : Nat) (n : Node) : Option (Option String) :=
  match fuel, n with
  | _, .scalar _ t => some t
  | fuel + 1, .mapping _ ps =>
    match ps.find? fun (k, _) => k.tag == .defaultValue with
    | some (_, v) => text? fuel v
    | none => none
  | _, _ => none

/-- Whether a node is a mapping. -/
def isMapping : Node → Bool
  | .mapping .. => true
  | _ => false

/-- What a text denotes under a tag that asks for a text. -/
def textValue (tag : Tag) (mapping : Bool) (t : Option String) : Except ReadError Datum :=
  let spelled (f : String → Plain.Spelled) : Except ReadError Datum :=
    match t with
    | some s => (f s).mapError .noValue
    | none => .error .malformed
  match tag with
  | .null => .ok .null
  | .bool => spelled Plain.boolValue
  | .int => spelled Plain.intValue
  | .float => spelled Plain.floatValue
  | .timestamp => if mapping then .error (.noValue .notText) else spelled Plain.stampValue
  | .text => .ok (t.elim .brokenText .text)
  | .binary =>
    match t with
    | some s =>
      if s.toList.all (·.toNat < 0x80) then
        (Text.Base64.decode? s.toList).elim (.error .malformed) fun b => .ok (.bytes b)
      else .error .malformed
    | none => .error .malformed
  | _ => .error .malformed

/-- The value of a node on a level. -/
def value (fuel level : Nat) (n : Node) : Found Datum :=
  match fuel with
  | 0 => .malformed level
  | fuel + 1 =>
    let below := level + 1
    let entry (kv : Node × Node) : Found (Datum × Datum) :=
      Found.both (if kv.1.tag.isCollection then .malformed below else value fuel below kv.1.asKey)
        (value fuel below kv.2)
    let entries (ps : List (Node × Node)) : Found (List (Datum × Datum)) := do
      let es ← Found.all ((← Found.on below (flatPairs fuel ps)).map entry)
      return es.foldl (fun done (k, v) => Datum.putEntry k v done) []
    match n.tag, n with
    | .list, .sequence _ ns => .list <$> Found.all (ns.map (value fuel below))
    | .pairs, .sequence _ ns =>
      .list <$> Found.all (ns.map fun n => match n with
        | .mapping _ [(k, v)] =>
          (Found.both (value fuel below k) (value fuel below v)).map fun (k, v) => .list [k, v]
        | _ => .malformed below)
    | .map, .mapping _ ps => .map <$> entries ps
    | .set, .mapping _ ps => (fun es => .set (es.map (·.1))) <$> entries ps
    | .list, _ | .pairs, _ | .map, _ | .set, _ => .malformed below
    | .merge, _ | .defaultValue, _ | .unknown, _ => .malformed level
    | tag, _ =>
      match n.text? fuel with
      | some t => .on level (textValue tag n.isMapping t)
      | none => .malformed level

end Node

/-- The value of a text that holds one document; nothing if it holds none. -/
def read (s : String) : Except ReadError Datum := do
  let ts ← tokens s.toList
  match ← Node.ofTokens? ts with
  | none => return .null
  | some n => (n.value (ts.length + 2) 0).mapError (·.2)

end Ratchet.Yaml
