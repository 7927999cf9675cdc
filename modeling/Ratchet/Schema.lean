import Ratchet.Datum.Shown
import Ratchet.Instant.Reader
import Ratchet.Number.Numeral

/-!
Reading values of known shape out of documents.

A reader turns a `Datum` into a value or lists everything that is wrong with it, each flaw with the
place where it stands. Readers are lenient in one direction only: a value of another kind is taken
when it denotes a value of the wanted kind without loss, as a text of digits does for a number.
-/

namespace Ratchet.Schema

/-- What can be wrong with a value. -/
inductive Flaw
  | missing
  | stringType
  | stringUnicode
  | intType
  | intParsing
  | intParsingSize
  | intFromFloat
  | finiteNumber
  | greaterThanEqual
  | boolType
  | boolParsing
  | floatType
  | floatParsing
  | listType
  | dictType
  | modelType
  | modelAttributesType
  | literalError
  | valueError
  | datetimeType
  | datetimeParsing
  | datetimeFromDateParsing
  | jsonInvalid
  deriving DecidableEq, Repr

/-- The code of a flaw. -/
def Flaw.code : Flaw → String
  | missing => "missing"
  | stringType => "string_type"
  | stringUnicode => "string_unicode"
  | intType => "int_type"
  | intParsing => "int_parsing"
  | intParsingSize => "int_parsing_size"
  | intFromFloat => "int_from_float"
  | finiteNumber => "finite_number"
  | greaterThanEqual => "greater_than_equal"
  | boolType => "bool_type"
  | boolParsing => "bool_parsing"
  | floatType => "float_type"
  | floatParsing => "float_parsing"
  | listType => "list_type"
  | dictType => "dict_type"
  | modelType => "model_type"
  | modelAttributesType => "model_attributes_type"
  | literalError => "literal_error"
  | valueError => "value_error"
  | datetimeType => "datetime_type"
  | datetimeParsing => "datetime_parsing"
  | datetimeFromDateParsing => "datetime_from_date_parsing"
  | jsonInvalid => "json_invalid"

/-- A flaw and the place where it stands, from the outside in. -/
structure Issue where
  place : List String
  flaw : Flaw
  deriving DecidableEq, Repr

/-- The issue seen from one level further out. -/
def Issue.under (step : String) (i : Issue) : Issue := { i with place := step :: i.place }

/-- A value, or everything that is wrong with what was to become one. -/
inductive Checked (α : Type) where
  | ok (value : α)
  | flawed (issues : List Issue)

namespace Checked

/-- The issues of a result. -/
def issues {α : Type} : Checked α → List Issue
  | .ok _ => []
  | .flawed is => is

/-- Applies a result to another and keeps the issues of both. -/
def apply {α β : Type} (f : Checked (α → β)) (x : Checked α) : Checked β :=
  match f, x with
  | .ok f, .ok x => .ok (f x)
  | .ok _, .flawed is => .flawed is
  | .flawed is, .ok _ => .flawed is
  | .flawed is, .flawed js => .flawed (is ++ js)

instance : Applicative Checked where
  pure := .ok
  seq f x := apply f (x ())
  map f x := apply (.ok f) x

/-- Places the issues of a result below `step`. -/
def under {α : Type} (step : String) : Checked α → Checked α
  | .ok x => .ok x
  | .flawed is => .flawed (is.map (Issue.under step))

/-- The result with one flaw here. -/
def flaw {α : Type} (f : Flaw) : Checked α := .flawed [⟨[], f⟩]

/-- The value as a result of core. -/
def toExcept {α : Type} : Checked α → Except (List Issue) α
  | .ok x => .ok x
  | .flawed is => .error is

end Checked

/-- Reads a value of one kind. -/
abbrev Reader (α : Type) := Datum → Checked α

/-- A text. -/
def text : Reader String
  | .text s => .ok s
  | .brokenText => .flaw .stringUnicode
  | .bytes b => match String.fromUTF8? b with
    | some s => .ok s
    | none => .flaw .stringUnicode
  | _ => .flaw .stringType

/-- The text of bytes, where a text may stand for a value; a flaw if they are none, and if a text cannot be
one. -/
def spelled (bad : Flaw) (d : Datum) : Checked Datum :=
  match d with
  | .brokenText => .flaw .stringUnicode
  | .bytes b => match String.fromUTF8? b with
    | some s => .ok (.text s)
    | none => .flaw bad
  | d => .ok d

/-- A reader that takes the text of bytes for the bytes. -/
def spelling {α : Type} (bad : Flaw) (r : Reader α) : Reader α := fun d =>
  match spelled bad d with
  | .ok d => r d
  | .flawed is => .flawed is

/-- Whether a whole number fits into a signed word of the machine. -/
def fitsWord (n : Int) : Bool := -(Number.twoTo 63 : Int) ≤ n && n < Number.twoTo 63

/-- The whole number that a decimal number stands for, if it lies between the bounds of a word. -/
def wholeOf? (x : Float) : Option Int := (Number.whole? x).filter fun n => n.natAbs < Number.twoTo 63

/-- A whole number. -/
def int : Reader Int := spelling .intParsing fun
  | .bool b => .ok (if b then 1 else 0)
  | .int n => .ok n
  | .float x =>
    match Number.parts x, Number.whole? x with
    | .finite .., some _ => (wholeOf? x).elim (.flaw .intParsingSize) .ok
    | .finite .., none => .flaw .intFromFloat
    | _, _ => .flaw .finiteNumber
  | .text s => match Number.Numeral.readSpelling s.toList with
    | .value n => .ok n
    | .tooLong => .flaw .intParsingSize
    | .unreadable => .flaw .intParsing
  | _ => .flaw .intType

/-- A value that is accepted by `p`, or a flaw. -/
def guarded {α : Type} (r : Reader α) (p : α → Bool) (f : Flaw) : Reader α := fun d =>
  match r d with
  | .ok x => if p x then .ok x else .flaw f
  | .flawed is => .flawed is

/-- A whole number that is not below `low`. -/
def intFrom (low : Int) : Reader Int := guarded int (low ≤ ·) .greaterThanEqual

/-- The texts for yes and no. -/
def boolOfText? (s : String) : Option Bool :=
  let w := String.ofList (s.toList.map Char.toLower)
  if ["0", "off", "f", "false", "n", "no"].contains w then some false
  else if ["1", "on", "t", "true", "y", "yes"].contains w then some true
  else none

/-- The numbers for yes and no. -/
def boolOfInt (n : Int) : Checked Bool :=
  if n == 0 then .ok false else if n == 1 then .ok true else .flaw .boolParsing

/-- Yes or no. -/
def bool : Reader Bool := spelling .boolParsing fun
  | .bool b => .ok b
  | .int n => if fitsWord n then boolOfInt n else .flaw .boolType
  | .float x => match wholeOf? x with
    | some n => boolOfInt n
    | none => .flaw .boolType
  | .text s => match boolOfText? s with
    | some b => .ok b
    | none => .flaw .boolParsing
  | _ => .flaw .boolType

/-- The decimal number that a text denotes: white space around it, or low lines in it, each between two other
characters, but not both. -/
def floatOfText? (s : String) : Option Float :=
  let plain (t : List Char) : Option Float := if t.all (·.toNat < 0x80) then Number.floatOf? t else none
  match plain (Text.trimWhile Text.isSpace s.toList) with
  | some x => some x
  | none => (Number.dropLowLines? s.toList).bind plain

/-- A decimal number. -/
def float : Reader Float := spelling .floatParsing fun
  | .float x => .ok x
  | .int n =>
    let x := Number.ofInt n
    if x.isFinite then .ok x else .flaw .floatType
  | .bool b => .ok (if b then 1 else 0)
  | .text s => match floatOfText? s with
    | some x => .ok x
    | none => .flaw .floatParsing
  | _ => .flaw .floatType

/-- A decimal number that is not below `low`. -/
def floatFrom (low : Float) : Reader Float := guarded float (fun x => !(x < low)) .greaterThanEqual

/-- An instant that was read, if the calendar has its year. -/
def inCalendar (i : Instant) : Checked Instant :=
  if Instant.inCalendar i.reading then .ok i else .flaw .datetimeParsing

/-- An instant. -/
def instant : Reader Instant := spelling .datetimeFromDateParsing fun
  | .instant i => .ok i
  | .date y m d => .ok ⟨Instant.daysOfDate y m d * Instant.day, none⟩
  | .text s => (Instant.ofText? s).elim (.flaw .datetimeFromDateParsing) inCalendar
  | .int n =>
    if (Number.ofInt n).isFinite then (Instant.ofInt? n).elim (.flaw .datetimeParsing) inCalendar
    else .flaw .datetimeType
  | .float x => (Instant.ofFloat? x).elim (.flaw .datetimeParsing) inCalendar
  | _ => .flaw .datetimeType

/-- A value, or nothing. -/
def nullable {α : Type} (r : Reader α) : Reader (Option α)
  | .null => .ok none
  | d => some <$> r d

/-- The items of a list, from the place `i` on. -/
def itemsFrom {α : Type} (r : Reader α) (i : Nat) : List Datum → Checked (List α)
  | [] => .ok []
  | d :: ds => List.cons <$> (r d).under (toString i) <*> itemsFrom r (i + 1) ds

/-- A list. -/
def list {α : Type} (r : Reader α) : Reader (List α)
  | .list ds | .set ds => itemsFrom r 0 ds
  | _ => .flaw .listType

/-- The step to an entry of a mapping. Yes and no count as one and zero. -/
def keyStep : Datum → String
  | .text s => s
  | .bool b => if b then "1" else "0"
  | d => d.inner

/-- The entries of a mapping whose keys are texts. -/
def entriesOf {α : Type} (r : Reader α) : List (Datum × Datum) → Checked (List (String × α))
  | [] => .ok []
  | (k, v) :: es =>
    (fun k v es => (k, v) :: es) <$> ((text k).under "[key]").under (keyStep k) <*> (r v).under (keyStep k) <*>
      entriesOf r es

/-- A mapping from texts. -/
def mapping {α : Type} (r : Reader α) : Reader (List (String × α))
  | .map es => entriesOf r es
  | _ => .flaw .dictType

/-- Any value. -/
def anything : Reader Datum := .ok

/-- A field that has to be there. -/
def required {α : Type} (es : List (Datum × Datum)) (name : String) (r : Reader α) : Checked α :=
  match Datum.entry? name es with
  | some d => (r d).under name
  | none => (Checked.flaw .missing).under name

/-- A field with a value for its absence. -/
def field {α : Type} (es : List (Datum × Datum)) (name : String) (absent : α) (r : Reader α) : Checked α :=
  match Datum.entry? name es with
  | some d => (r d).under name
  | none => .ok absent

/-- A mapping with known fields, as a part of a larger value. -/
def record {α : Type} (r : List (Datum × Datum) → Checked α) : Reader α
  | .map es => r es
  | _ => .flaw .modelType

/-- The first of two readers that takes the value; the issues of both, named, if neither does. -/
def either {α : Type} (nameA : String) (a : Reader α) (nameB : String) (b : Reader α) : Reader α := fun d =>
  match a d with
  | .ok x => .ok x
  | .flawed is =>
    match b d with
    | .ok x => .ok x
    | .flawed js =>
      .flawed (is.map (Issue.under nameA) ++ js.map (Issue.under nameB))

end Ratchet.Schema
