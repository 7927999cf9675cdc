import Ratchet.Text.Digit
import Ratchet.Text.Letter
import Ratchet.Text.WordTable

/-!
Phrases in messages.

A phrase is a row of pieces: fixed letters up to case, letters that may be missing, digits, one of
several words, or a stretch of characters on one line. A message holds a phrase when the pieces
follow each other somewhere in it.
-/

namespace Ratchet

/-- A piece of a phrase. -/
inductive Piece
  /-- Fixed characters, letters up to case. -/
  | letters (s : String)
  /-- Fixed characters that may be missing. -/
  | maybe (s : String)
  /-- One of several fixed texts. -/
  | oneOf (words : List String)
  /-- One or more digits of any script. -/
  | digits
  /-- One or more characters of one line. -/
  | stretch
  deriving DecidableEq, Repr

namespace Piece

/-- What can be left of a text after one or more characters that `p` accepts. -/
def afterSome (p : Char → Bool) : List Char → List (List Char)
  | [] => []
  | c :: s => if p c then s :: afterSome p s else []

/-- What can be left of a text after a piece at its start. -/
def ends (p : Piece) (s : List Char) : List (List Char) :=
  match p with
  | .letters t => (Text.dropLetters? t.toList s).toList
  | .maybe t => (Text.dropLetters? t.toList s).toList ++ [s]
  | .oneOf ts => ts.flatMap fun t => (Text.dropLetters? t.toList s).toList
  | .digits => afterSome Text.isDigit s
  | .stretch => afterSome (· != '\n') s

end Piece

/-- A phrase: pieces that follow each other. -/
abbrev Phrase := List Piece

namespace Phrase

/-- Whether a text starts with a phrase. -/
def startsHere : Phrase → List Char → Bool
  | [], _ => true
  | p :: ps, s => (p.ends s).any (startsHere ps)

/-- Whether a phrase occurs in a text. -/
def occursIn (p : Phrase) : List Char → Bool
  | [] => p.startsHere []
  | c :: s => p.startsHere (c :: s) || p.occursIn s

/-- Whether a phrase occurs in a text at the start of a word; `inWord` tells whether a word character
stands before the text. -/
def occursAsWord (p : Phrase) (inWord : Bool) : List Char → Bool
  | [] => false
  | c :: s => (!inWord && p.startsHere (c :: s)) || p.occursAsWord (Text.isWordChar c) s

end Phrase

end Ratchet
