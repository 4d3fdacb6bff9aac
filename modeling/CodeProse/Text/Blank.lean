/-
# White space in texts

Trimming, splitting into words at white space, and collapsing every run of white space to one blank.
-/
import CodeProse.Text.Offset
import CodeProse.Unicode.Property

namespace CodeProse.Text

open Unicode (isWhitespace)

/-- Whether a text holds nothing but white space. -/
def isBlank (t : Text) : Bool :=
  t.all isWhitespace

/-- Drops leading white space. -/
def trimStart (t : Text) : Text :=
  t.dropWhile isWhitespace

/-- Drops trailing white space. -/
def trimEnd (t : Text) : Text :=
  (t.reverse.dropWhile isWhitespace).reverse

/-- Drops white space at both ends. -/
def trim (t : Text) : Text :=
  trimEnd (trimStart t)

/-- The maximal runs of characters that are not white space. -/
def words : Text → List Text
  | [] => []
  | c :: t =>
    if isWhitespace c then words t
    else
      match t with
      | [] => [[c]]
      | d :: _ =>
        if isWhitespace d then [c] :: words t
        else
          match words t with
          | [] => [[c]]
          | w :: ws => (c :: w) :: ws

/-- Joins texts, with `sep` between neighbours. -/
def join (sep : Text) : List Text → Text
  | [] => []
  | [w] => w
  | w :: ws => w ++ sep ++ join sep ws

/-- Writes the words of a text with one blank between them. -/
def collapse (t : Text) : Text :=
  join [' '] (words t)

end CodeProse.Text
