/-!
Words of a command line.

Words are separated by spaces, tabs and line ends. Single quotes keep everything between them,
double quotes keep everything but a backslash before a double quote or a backslash, and a backslash
outside quotes keeps the next character. An empty pair of quotes is an empty word.
-/

namespace Ratchet.Text

/-- Why a command line has no words. -/
inductive WordError
  | openQuote
  | danglingEscape
  deriving DecidableEq, Repr

/-- The message of a word error. -/
def WordError.message : WordError → String
  | .openQuote => "No closing quotation"
  | .danglingEscape => "No escaped character"

/-- Where the reader of a command line stands. -/
inductive WordMode
  /-- Between words. -/
  | gap
  /-- In a word, outside quotes. -/
  | bare
  /-- Between quotes. -/
  | quote (q : Char)
  /-- After a backslash outside quotes. -/
  | escape
  /-- After a backslash between double quotes. -/
  | quoteEscape
  deriving DecidableEq, Repr

/-- The separators of words. -/
def isWordGap (c : Char) : Bool := c == ' ' || c == '\t' || c == '\r' || c == '\n'

/-- The mode that the first character of a stretch outside quotes leads to, if it is a mark. -/
def markMode? (c : Char) : Option WordMode :=
  if c == '\\' then some .escape
  else if c == '\'' || c == '"' then some (.quote c)
  else none

/-- Reads words from `mode` on; `word` is the reversed current word, `quoted` whether it had quotes. -/
def wordsFrom (mode : WordMode) (word : List Char) (quoted : Bool) :
    List Char → Except WordError (List (List Char))
  | [] =>
    match mode with
    | .gap => .ok []
    | .bare => .ok (if word.isEmpty && !quoted then [] else [word.reverse])
    | .quote _ => .error .openQuote
    | .escape | .quoteEscape => .error .danglingEscape
  | c :: s =>
    match mode with
    | .gap =>
      if isWordGap c then wordsFrom .gap [] false s
      else match markMode? c with
        | some m => wordsFrom m [] false s
        | none => wordsFrom .bare [c] false s
    | .bare =>
      if isWordGap c then
        (wordsFrom .gap [] false s).map fun ws =>
          if word.isEmpty && !quoted then ws else word.reverse :: ws
      else match markMode? c with
        | some m => wordsFrom m word quoted s
        | none => wordsFrom .bare (c :: word) quoted s
    | .quote q =>
      if c == q then wordsFrom .bare word true s
      else if c == '\\' && q == '"' then wordsFrom .quoteEscape word true s
      else wordsFrom (.quote q) (c :: word) true s
    | .escape => wordsFrom .bare (c :: word) quoted s
    | .quoteEscape =>
      if c == '"' || c == '\\' then wordsFrom (.quote '"') (c :: word) true s
      else wordsFrom (.quote '"') (c :: '\\' :: word) true s

/-- The words of a command line. -/
def words (s : String) : Except WordError (List String) :=
  (wordsFrom .gap [] false s.toList).map fun ws => ws.map String.ofList

end Ratchet.Text
