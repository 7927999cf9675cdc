import Ratchet.Instant
import Ratchet.Number.Binary64

/-!
Values of a document.

A `Datum` is what a configuration file, a manifest, a report or a request body holds before anything
is known about its shape. Mappings keep the order in which their keys came first; a key that comes
again replaces the value and keeps the place.
-/

namespace Ratchet

/-- A value of a document. -/
inductive Datum
  | null
  | bool (b : Bool)
  | int (n : Int)
  | float (x : Float)
  | text (s : String)
  /-- A text with half of a surrogate pair in it. -/
  | brokenText
  | date (year month day : Int)
  | instant (i : Instant)
  | bytes (b : ByteArray)
  | list (items : List Datum)
  | set (items : List Datum)
  | map (entries : List (Datum × Datum))
  deriving Inhabited

namespace Datum

/-- The whole number that a value counts as when it is compared with another. -/
def number? : Datum → Option Int
  | bool b => some (if b then 1 else 0)
  | int n => some n
  | float x => Number.whole? x
  | _ => none

/-- Whether two values are the same key of a mapping. Numbers are compared by value. -/
def sameKey (a b : Datum) : Bool :=
  match a.number?, b.number? with
  | some m, some n => m == n
  | none, none =>
    match a, b with
    | null, null => true
    | float x, float y => x == y
    | text s, text t => s == t
    | date y m d, date y' m' d' => y == y' && m == m' && d == d'
    | instant i, instant j => i.comparable j && i.universal == j.universal
    | bytes x, bytes y => x == y
    | _, _ => false
  | _, _ => false

/-- The entries with the value of one key set. -/
def putEntry (k v : Datum) : List (Datum × Datum) → List (Datum × Datum)
  | [] => [(k, v)]
  | (k', v') :: r => if sameKey k' k then (k', v) :: r else (k', v') :: putEntry k v r

/-- The value of a key that is a text. -/
def entry? (key : String) : List (Datum × Datum) → Option Datum
  | [] => none
  | (.text k, v) :: r => if k == key then some v else entry? key r
  | _ :: r => entry? key r

/-- Whether a value counts as absent: nothing, no, zero, or an empty text or collection. -/
def isVacant : Datum → Bool
  | null => true
  | bool b => !b
  | int n => n == 0
  | float x => x == 0
  | text s => s.isEmpty
  | brokenText | date .. | instant _ => false
  | bytes b => b.isEmpty
  | list xs | set xs => xs.isEmpty
  | map es => es.isEmpty

/-- A list of texts. -/
def ofTexts (xs : List String) : Datum := .list (xs.map .text)

/-- A mapping with texts for keys. -/
def ofFields (fields : List (String × Datum)) : Datum :=
  .map (fields.map fun (k, v) => (.text k, v))

/-- A text, or nothing. -/
def ofText? : Option String → Datum
  | none => .null
  | some s => .text s

/-- The word for a value's type in a message. -/
def typeLabel : Datum → String
  | null => "NoneType"
  | bool _ => "bool"
  | int _ => "int"
  | float _ => "float"
  | text _ | brokenText => "str"
  | date .. => "date"
  | instant _ => "datetime"
  | bytes _ => "bytes"
  | list _ => "list"
  | set _ => "set"
  | map _ => "dict"

end Datum

end Ratchet
