/-
# Sentences

A sentence ends at white space that follows a full stop, an exclamation mark or a question mark.
Abbreviations are not special.
-/
import CodeProse.Text.Blank

namespace CodeProse

/-- A stretch of a text: its characters and its byte range. -/
structure Span where
  text : Text
  start : Nat
  stop : Nat
  deriving DecidableEq, Repr, Inhabited

namespace Text

open Unicode (isWhitespace)

/-- Whether `c` may end a sentence. -/
def endsSentence (c : Char) : Bool :=
  c == '.' || c == '!' || c == '?'

/-- Cuts a text before each white space that directly follows the end of a sentence; `ended` says
whether the character before the text is such an end. -/
def sentencePieces (ended : Bool) : Text → List Text
  | [] => [[]]
  | c :: t =>
    let pieces := sentencePieces (endsSentence c) t
    let extended :=
      match pieces with
      | [] => [[c]]
      | p :: ps => (c :: p) :: ps
    if isWhitespace c && ended then [] :: extended else extended

/-- Trims each of a row of adjacent pieces, the first of which starts at `offset`, and leaves out
those that hold nothing else. -/
def trimmedSpans (offset : Nat) : List Text → List Span
  | [] => []
  | piece :: rest =>
    let core := trim piece
    let start := offset + (byteLength piece - byteLength (trimStart piece))
    let later := trimmedSpans (offset + byteLength piece) rest
    if core.isEmpty then later else ⟨core, start, start + byteLength core⟩ :: later

/-- The sentences of a text, trimmed. -/
def sentences (t : Text) : List Span :=
  trimmedSpans 0 (sentencePieces false t)

end Text

end CodeProse
