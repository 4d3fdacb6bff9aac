/-
# Settings

`Options` are what a user may choose; `Settings` are the same in the form that checking uses, with
patterns read, words in lower case, and the confidence known to be in range. Of a pattern, checking
knows only what it matches in.
-/
import CodeProse.Error
import CodeProse.Issue
import CodeProse.Pattern.Reader
import CodeProse.SkipWords
import CodeProse.Style.Rules

namespace CodeProse

/-- What a user may choose. -/
structure Options where
  comments : Bool := true
  strings : Bool := true
  templates : Bool := true
  identifiers : Bool := true
  sentences : Bool := false
  debug : Bool := false
  minLength : Nat := 1
  skipWords : List Text := []
  skipIfMatch : List Text := []
  skipWordIfMatch : List Text := []
  language : Text := "en_US".toList
  confidence : Option Float32 := none
  dictionaryDir : Option Text := none
  style : Style.StyleChecks := {}
  grammarUrl : Option Text := none
  grammarTimeout : Nat := 30
  deriving Inhabited

/-- A pattern: the text that it was read from, and whether some part of a text matches. -/
structure NamedPattern where
  text : Text
  matchesIn : Text → Bool
  deriving Inhabited

/-- A language of patterns: what a text matches in, if it is a pattern of the language. -/
abbrev PatternLanguage := Text → Option (Text → Bool)

/-- Regular expressions. -/
def PatternLanguage.regular : PatternLanguage := fun t =>
  (Pattern.read? t).map Pattern.matchesIn

/-- Settings for checking. -/
structure Settings where
  language : Text := "en_US".toList
  /-- Shorter words are not checked. -/
  minLength : Nat := 1
  /-- Words that are never misspelled: in lower case, sorted, each once. -/
  skipWords : List Text := defaultSkipWords
  /-- A unit that matches one of these is not checked. -/
  skipIfMatch : List NamedPattern := []
  /-- A word that matches one of these is not checked. -/
  skipWordIfMatch : List NamedPattern := []
  style : Style.StyleChecks := {}
  /-- Whether sentences are sent to a grammar service. -/
  sentences : Bool := false
  comments : Bool := true
  strings : Bool := true
  templates : Bool := true
  identifiers : Bool := true
  /-- Findings of a grammar service with less confidence are dropped. -/
  confidence : Option Float32 := none
  deriving Inhabited

/-- Reads the patterns of a list; the first that is none is the error. -/
def readPatterns (patterns : PatternLanguage) (texts : List Text) :
    Except CheckError (List NamedPattern) :=
  texts.mapM fun t =>
    match patterns t with
    | some matchesIn => .ok ⟨t, matchesIn⟩
    | none => .error (.pattern t)

/-- The settings that options come to. Patterns are regular expressions, unless another language is
given. -/
def Settings.ofOptions (o : Options) (patterns : PatternLanguage := .regular) :
    Except CheckError Settings := do
  match o.confidence with
  | some x => if !(0 ≤ x && x ≤ 1) then throw (.confidenceOutOfRange x)
  | none => pure ()
  let skipIfMatch ← readPatterns patterns o.skipIfMatch
  let skipWordIfMatch ← readPatterns patterns o.skipWordIfMatch
  return {
    language := o.language
    minLength := o.minLength
    skipWords := skipWordSet (vocabulary ++ o.skipWords)
    skipIfMatch := skipIfMatch
    skipWordIfMatch := skipWordIfMatch
    style := o.style
    sentences := o.sentences
    comments := o.comments
    strings := o.strings
    templates := o.templates
    identifiers := o.identifiers
    confidence := o.confidence }

namespace Settings

/-- Whether units of a kind are checked. -/
def checksKind (s : Settings) : UnitKind → Bool
  | .comment => s.comments
  | .string => s.strings
  | .template => s.templates
  | .identifier => s.identifiers

/-- Whether a word is never misspelled. -/
def isSkipWord (s : Settings) (word : Text) : Bool :=
  s.skipWords.contains (Unicode.lowercase word)

/-- Whether a text as a whole is not to be checked. -/
def skipsValue (s : Settings) (value : Text) : Bool :=
  s.isSkipWord value || s.skipIfMatch.any (·.matchesIn value)

/-- Whether a word is to be checked at all: it is long enough and matches none of the patterns. -/
def keepsWord (s : Settings) (word : Text) : Bool :=
  s.minLength ≤ word.length && !s.skipWordIfMatch.any (·.matchesIn word)

end Settings

end CodeProse
