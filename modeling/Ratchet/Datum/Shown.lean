import Ratchet.Datum
import Ratchet.Text.Quoted

/-!
A value as it is shown in a message. A text stands for itself; inside a collection it is quoted.
-/

namespace Ratchet.Datum

/-- The fields of an instant in a list. -/
def instantFields (i : Instant) : String :=
  let (y, mo, d, h, mi, s, us) := i.fields
  let tail : List Int := if us != 0 then [s, us] else if s != 0 then [s] else []
  ", ".intercalate (([y, mo, d, h, mi] ++ tail).map toString)

/-- Bytes between quotes. -/
def quotedBytes (b : ByteArray) : String :=
  let cs := b.toList.map fun u => Char.ofNat u.toNat
  let q := Text.quoteFor cs
  "b" ++ String.singleton q ++ String.join (b.toList.map fun u =>
    if u < 0x7f then String.ofList (Text.quotedChar q (Char.ofNat u.toNat))
    else "\\x" ++ String.ofList (Text.hexPadded 2 u.toNat)) ++ String.singleton q

mutual

/-- A value inside a collection. -/
def inner : Datum → String
  | .null => "None"
  | .bool b => if b then "True" else "False"
  | .int n => toString n
  | .float x => Number.shortest x
  | .text s => Text.quoted s
  | .brokenText => "''"
  | .date y m d => "datetime.date(" ++ ", ".intercalate ([y, m, d].map toString) ++ ")"
  | .instant i => "datetime.datetime(" ++ instantFields i ++
      (match i.offset with
        | none => ""
        | some 0 => ", tzinfo=datetime.timezone.utc"
        | some s => ", tzinfo=datetime.timezone(" ++ Instant.spanText s ++ ")") ++ ")"
  | .bytes b => quotedBytes b
  | .list ds => "[" ++ ", ".intercalate (innerAll ds) ++ "]"
  | .set ds => if ds.isEmpty then "set()" else "\x7b" ++ ", ".intercalate (innerAll ds) ++ "\x7d"
  | .map es => "\x7b" ++ ", ".intercalate (innerEntries es) ++ "\x7d"

/-- Values inside a collection. -/
def innerAll : List Datum → List String
  | [] => []
  | d :: ds => inner d :: innerAll ds

/-- Entries of a mapping. -/
def innerEntries : List (Datum × Datum) → List String
  | [] => []
  | (k, v) :: es => (inner k ++ ": " ++ inner v) :: innerEntries es

end

/-- A value in a message. -/
def shown : Datum → String
  | .text s => s
  | .date y m d => String.ofList (Instant.field 4 y ++ '-' :: Instant.field 2 m ++ '-' :: Instant.field 2 d)
  | .instant i => String.ofList (i.listingText.toList.map fun c => if c == 'T' then ' ' else c)
  | d => inner d

end Ratchet.Datum
