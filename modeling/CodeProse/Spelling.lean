/-
# Spelling
-/
import CodeProse.Dictionary.Basic
import CodeProse.Settings
import CodeProse.Text.Word

namespace CodeProse.Spelling

/-- How many suggestions are shown. -/
def maxSuggestions : Nat := 5

/-- Whether a word is neither accepted by the settings nor known to the dictionary. -/
def isMisspelled (s : Settings) (d : Dictionary) (word : Text) : Bool :=
  !s.isSkipWord word && !d.accepts word

/-- Whether a word is an error: it is misspelled as it stands, and so is one of its parts. -/
def isError (s : Settings) (d : Dictionary) (word : Text) : Bool :=
  isMisspelled s d word
    && ((Text.subWords word).filter s.keepsWord).any (isMisspelled s d)

/-- The suggestions as they are shown. -/
def hint (suggestions : List Text) : Option Text :=
  if suggestions.isEmpty then none
  else
    some ("Did you mean: ".toList ++ Text.join [',', ' '] (suggestions.take maxSuggestions)
      ++ ['?'])

/-- The issue of a misspelled word. -/
def issue (d : Dictionary) (token : Token) : Issue :=
  { rule := .spelling, severity := .warning, start := token.start, stop := token.stop
    message := "Misspelled word ".toList ++ Style.quoted token.text ++ ['.']
    suggestion := hint (d.suggestions token.text) }

/-- The misspelled words of a text. -/
def check (s : Settings) (d : Dictionary) (t : Text) : List Issue :=
  (t.wordTokens.filter fun token => s.keepsWord token.text && isError s d token.text).map (issue d)

end CodeProse.Spelling
