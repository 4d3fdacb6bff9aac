/-
# Readability

Remarks on passages that are hard to read: passive voice, weasel words, repeated words, sentences
that open with "so" or "there is", adverbs and wordy phrases. All of it goes by patterns alone.
-/
import CodeProse.Style.Catalog
import CodeProse.Style.Phrase
import CodeProse.Text.Run

namespace CodeProse.Style

open Unicode

/-- The families of remarks. -/
structure ReadabilityChecks where
  passive : Bool := false
  weasel : Bool := false
  illusion : Bool := false
  so : Bool := false
  thereIs : Bool := false
  adverb : Bool := false
  tooWordy : Bool := false
  deriving DecidableEq, Repr, Inhabited

/-- Passive voice alone. -/
def ReadabilityChecks.passiveOnly : ReadabilityChecks := { passive := true }

/-- All families but passive voice, which has a rule of its own. -/
def ReadabilityChecks.prose : ReadabilityChecks :=
  { weasel := true, illusion := true, so := true, thereIs := true, adverb := true,
    tooWordy := true }

/-- A remark on the `length` bytes from `start` on. -/
structure Remark where
  start : Nat
  length : Nat
  reason : Text
  deriving DecidableEq, Repr, Inhabited

/-- A way to find remarks. -/
abbrev Analyzer := Text → ReadabilityChecks → List Remark

/-- A remark that quotes the passage it is about. -/
def Remark.quoting (start : Nat) (passage quoted : Text) (comment : String) : Remark :=
  ⟨start, passage.byteLength, '"' :: quoted ++ '"' :: ' ' :: comment.toList⟩

/-- Remarks on all occurrences of the phrases of a catalog. -/
def phraseRemarks (phrases : List Text) (comment : String) (t : Text) : List Remark :=
  (findAll phrases t).map fun m => .quoting m.start m.matched m.matched comment

/-! ## Passive voice -/

/-- Whether a word is a form of "to be". -/
def isPassiveAuxiliary (word : Text) : Bool :=
  passiveAuxiliaries.contains (word.map foldChar)

/-- Whether a word looks like a past participle: it ends in "ed" or is a known irregular one. -/
def isParticiple (word : Text) : Bool :=
  let folded := word.map foldChar
  (folded.all Char.isLower && 3 ≤ folded.length && folded.drop (folded.length - 2) == ['e', 'd'])
    || irregularParticiples.contains folded

/-- Pairs of an auxiliary and a participle with only white space between them. A participle that has
been used is not an auxiliary of the next pair. -/
def passivePairs : List Run → List Remark
  | a :: b :: rest =>
    if isPassiveAuxiliary a.text && b.gap.all isWhitespace && isParticiple b.text then
      let passage := a.text ++ b.gap ++ b.text
      .quoting a.start passage passage "may be passive voice" :: passivePairs rest
    else passivePairs (b :: rest)
  | _ => []

/-- Remarks on the passive voice. -/
def passiveRemarks (t : Text) : List Remark :=
  passivePairs (t.runs isWordChar)

/-! ## Repeated words -/

/-- The characters of the words that are compared: ASCII word characters and the apostrophe. -/
def isPlainWordChar (c : Char) : Bool :=
  isAsciiWordChar c || c == '\''

/-- Whether a run is a word: it neither begins nor ends with an apostrophe. -/
def isPlainWord (word : Text) : Bool :=
  word.head? != some '\'' && word.getLast? != some '\''

/-- Pairs of equal words with only white space between them. -/
def repeatedPairs : List Run → List Remark
  | a :: b :: rest =>
    let later := repeatedPairs (b :: rest)
    if isPlainWord a.text && isPlainWord b.text && b.gap.all isWhitespace
        && eqIgnoreAsciiCase a.text b.text then
      .quoting a.start (a.text ++ b.gap ++ b.text) b.text "is repeated" :: later
    else later
  | _ => []

/-- Remarks on words that stand twice in a row. -/
def illusionRemarks (t : Text) : List Remark :=
  repeatedPairs (t.runs isPlainWordChar)

/-! ## Openers -/

/-- Reads the letters of a word, whatever their case, off the start of a text. -/
def takeFolded? : (word : Text) → Text → Option (Text × Text)
  | [], t => some ([], t)
  | _ :: _, [] => none
  | c :: p, d :: t =>
    if c = foldChar d then (takeFolded? p t).map fun r => (d :: r.1, r.2) else none

/-- A way to recognise an opener at the start of a text: its words, and how many characters after
them it uses up. -/
abbrev Opener := Text → Option (Text × Nat)

/-- The word "so", and the character that ends it. -/
def soOpener : Opener := fun t =>
  match takeFolded? ['s', 'o'] t with
  | some (word, c :: _) => if isWordChar c then none else some (word, 1)
  | _ => none

/-- "there is" or "there are", ending at the end of a word. -/
def thereIsOpener : Opener := fun t =>
  match takeFolded? "there".toList t with
  | none => none
  | some (there, rest) =>
    let gap := rest.takeWhile isWhitespace
    let rest := rest.dropWhile isWhitespace
    if gap.isEmpty then none
    else
      let ending (verb : Text) : Option (Text × Nat) :=
        match takeFolded? verb rest with
        | some (word, after) =>
          if after.head?.any isWordChar then none else some (there ++ gap ++ word, 0)
        | none => none
      (ending ['i', 's']).orElse fun _ => ending ['a', 'r', 'e']

/-- Whether an opener may follow `c` and white space. -/
def opensClause (c : Char) : Bool :=
  c == '.' || c == '!' || c == '?' || c == ';'

/-- An opener at the start of a text, after optional white space: the text before it, its words, and
the characters used up in all. -/
def openerAfterBlank? (opener : Opener) (lead : Text) (t : Text) : Option (Text × Text × Nat) :=
  let blank := t.takeWhile isWhitespace
  (opener (t.dropWhile isWhitespace)).map fun r =>
    (lead ++ blank, r.1, lead.length + blank.length + r.1.length + r.2)

/-- An opener that a text begins with: at the start of everything, or after a mark that ends a clause
and at least one white space. -/
def openerAt? (opener : Opener) (atStart : Bool) (t : Text) : Option (Text × Text × Nat) :=
  let here := if atStart then openerAfterBlank? opener [] t else none
  here.orElse fun _ =>
    match t with
    | c :: d :: rest =>
      if opensClause c && isWhitespace d then openerAfterBlank? opener [c] (d :: rest) else none
    | _ => none

/-- The openers of a text that starts at `offset`, of which the first `skip` characters are used up.
What an opener has used up cannot belong to the next one. -/
def openersFrom (opener : Opener) (comment : String) (offset skip : Nat) : Text → List Remark
  | [] => []
  | c :: t =>
    let next := offset + c.utf8Size
    match skip with
    | n + 1 => openersFrom opener comment next n t
    | 0 =>
      match openerAt? opener (offset == 0) (c :: t) with
      | some (lead, words, used) =>
        .quoting (offset + lead.byteLength) words words comment
          :: openersFrom opener comment next (used - 1) t
      | none => openersFrom opener comment next 0 t

/-- Remarks on sentences that open with "so". -/
def soRemarks (t : Text) : List Remark :=
  openersFrom soOpener "adds no meaning" 0 0 t

/-- Remarks on sentences that open with "there is" or "there are". -/
def thereIsRemarks (t : Text) : List Remark :=
  openersFrom thereIsOpener "is unnecessary verbiage" 0 0 t

/-! ## All remarks -/

/-- Remarks in the order of their start, the shorter first. -/
def Remark.earlierFirst (a b : Remark) : Bool :=
  a.start < b.start || (a.start == b.start && a.length ≤ b.length)

/-- The built-in analyzer. -/
def analyze : Analyzer := fun t checks =>
  let remarks (on : Bool) (found : Text → List Remark) := if on then found t else []
  (remarks checks.passive passiveRemarks
    ++ remarks checks.weasel (phraseRemarks weaselWords "is a weasel word")
    ++ remarks checks.illusion illusionRemarks
    ++ remarks checks.so soRemarks
    ++ remarks checks.thereIs thereIsRemarks
    ++ remarks checks.adverb (phraseRemarks adverbs "can weaken meaning")
    ++ remarks checks.tooWordy (phraseRemarks wordyPhrases "is wordy or unneeded")).mergeSort
      Remark.earlierFirst

end CodeProse.Style
