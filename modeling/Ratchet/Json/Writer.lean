import Ratchet.Datum
import Ratchet.Text.Quoted

/-!
Writing a value as JSON.

Every item and every field stands on a line of its own, indented by two spaces per level; empty
collections stay on one line. All characters outside printable ASCII are escaped by their UTF-16
units, so the output is ASCII.
-/

namespace Ratchet.Json

/-- An escape of one UTF-16 unit. -/
def unitEscape (n : Nat) : List Char := '\\' :: 'u' :: Text.hexPadded 4 n

/-- A character inside a JSON string. -/
def escapeChar (c : Char) : List Char :=
  if c == '"' || c == '\\' then ['\\', c]
  else if c == '\n' then ['\\', 'n']
  else if c == '\r' then ['\\', 'r']
  else if c == '\t' then ['\\', 't']
  else if c == '\x08' then ['\\', 'b']
  else if c == '\x0c' then ['\\', 'f']
  else
    let n := c.toNat
    if 0x20 ≤ n && n ≤ 0x7e then [c]
    else if n < 0x10000 then unitEscape n
    else unitEscape (0xd800 + (n - 0x10000) / 0x400) ++ unitEscape (0xdc00 + (n - 0x10000) % 0x400)

/-- A JSON string. -/
def quotedText (s : String) : List Char := '"' :: s.toList.flatMap escapeChar ++ ['"']

/-- A number in JSON, or one of the three words for what is not finite. -/
def floatText (x : Float) : List Char :=
  match Number.parts x with
  | .nan => "NaN".toList
  | .infinite negative => (if negative then "-Infinity" else "Infinity").toList
  | _ => (Number.shortest x).toList

/-- A line break and the indentation of a level. -/
def breakTo (level : Nat) : List Char := '\n' :: List.replicate (2 * level) ' '

/-- A key as it is written: a text as it is, any other simple value by its JSON text. -/
def keyText : Datum → List Char
  | .text s => quotedText s
  | .null => "\"null\"".toList
  | .bool b => (if b then "\"true\"" else "\"false\"").toList
  | .int n => '"' :: (toString n).toList ++ ['"']
  | .float x => '"' :: floatText x ++ ['"']
  | _ => "\"\"".toList

mutual

/-- A value at an indentation level. -/
def writeAt (level : Nat) : Datum → List Char
  | .null => "null".toList
  | .bool b => (if b then "true" else "false").toList
  | .int n => (toString n).toList
  | .float x => floatText x
  | .text s => quotedText s
  | .brokenText => ['"', '"']
  | .date y m d => quotedText (String.ofList ((Instant.readingText ⟨Instant.daysOfDate y m d * Instant.day, none⟩).take 10))
  | .instant i => quotedText i.text
  | .bytes b => quotedText ((String.fromUTF8? b).getD "")
  | .list [] => ['[', ']']
  | .list (x :: xs) => '[' :: breakTo (level + 1) ++ writeAt (level + 1) x ++ writeItems (level + 1) xs ++
      breakTo level ++ [']']
  | .set [] => ['[', ']']
  | .set (x :: xs) => '[' :: breakTo (level + 1) ++ writeAt (level + 1) x ++ writeItems (level + 1) xs ++
      breakTo level ++ [']']
  | .map [] => ['\x7b', '\x7d']
  | .map ((k, v) :: es) => '\x7b' :: breakTo (level + 1) ++ keyText k ++ ':' :: ' ' :: writeAt (level + 1) v ++
      writeFields (level + 1) es ++ breakTo level ++ ['\x7d']

/-- The further items of a list. -/
def writeItems (level : Nat) : List Datum → List Char
  | [] => []
  | x :: xs => ',' :: breakTo level ++ writeAt level x ++ writeItems level xs

/-- The further fields of a mapping. -/
def writeFields (level : Nat) : List (Datum × Datum) → List Char
  | [] => []
  | (k, v) :: es => ',' :: breakTo level ++ keyText k ++ ':' :: ' ' :: writeAt level v ++ writeFields level es

end

/-- The value as a JSON document. -/
def write (d : Datum) : String := String.ofList (writeAt 0 d)

end Ratchet.Json
