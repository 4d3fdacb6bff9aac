/-
# Names of properties

The properties that a pattern can name between braces. Names are compared without regard to case,
blanks, hyphens and underscores, and a leading "is" does not count.
-/
import CodeProse.Pattern.CharSet
import CodeProse.Text.Search

namespace CodeProse.Pattern

open Unicode

/-- A name without the parts that do not count. -/
def normalName (name : Text) : Text :=
  let bare := (name.filter fun c => !(c == ' ' || c == '_' || c == '-')).map Char.toLower
  match bare with
  | 'i' :: 's' :: rest => if rest = ['c'] then bare else rest
  | _ => bare

/-- Names of general categories and of groups of them. -/
def categoryNames : List (String × CharProperty) :=
  [
    ("any", .any), ("assigned", .assigned),
    ("l", .letter), ("letter", .letter), ("lc", .casedLetter), ("casedletter", .casedLetter),
    ("lu", .category .uppercaseLetter), ("uppercaseletter", .category .uppercaseLetter),
    ("ll", .category .lowercaseLetter), ("lowercaseletter", .category .lowercaseLetter),
    ("lt", .category .titlecaseLetter), ("titlecaseletter", .category .titlecaseLetter),
    ("lm", .category .modifierLetter), ("modifierletter", .category .modifierLetter),
    ("lo", .category .otherLetter), ("otherletter", .category .otherLetter),
    ("m", .mark), ("mark", .mark), ("combiningmark", .mark),
    ("mn", .category .nonspacingMark), ("nonspacingmark", .category .nonspacingMark),
    ("mc", .category .spacingMark), ("spacingmark", .category .spacingMark),
    ("me", .category .enclosingMark), ("enclosingmark", .category .enclosingMark),
    ("n", .number), ("number", .number),
    ("nd", .category .decimalNumber), ("decimalnumber", .category .decimalNumber),
    ("digit", .category .decimalNumber),
    ("nl", .category .letterNumber), ("letternumber", .category .letterNumber),
    ("no", .category .otherNumber), ("othernumber", .category .otherNumber),
    ("p", .punctuation), ("punctuation", .punctuation), ("punct", .punctuation),
    ("pc", .category .connectorPunctuation),
    ("connectorpunctuation", .category .connectorPunctuation),
    ("pd", .category .dashPunctuation), ("dashpunctuation", .category .dashPunctuation),
    ("ps", .category .openPunctuation), ("openpunctuation", .category .openPunctuation),
    ("pe", .category .closePunctuation), ("closepunctuation", .category .closePunctuation),
    ("pi", .category .initialPunctuation), ("initialpunctuation", .category .initialPunctuation),
    ("pf", .category .finalPunctuation), ("finalpunctuation", .category .finalPunctuation),
    ("po", .category .otherPunctuation), ("otherpunctuation", .category .otherPunctuation),
    ("s", .symbol), ("symbol", .symbol),
    ("sm", .category .mathSymbol), ("mathsymbol", .category .mathSymbol),
    ("sc", .category .currencySymbol), ("currencysymbol", .category .currencySymbol),
    ("sk", .category .modifierSymbol), ("modifiersymbol", .category .modifierSymbol),
    ("so", .category .otherSymbol), ("othersymbol", .category .otherSymbol),
    ("z", .separator), ("separator", .separator),
    ("zs", .category .spaceSeparator), ("spaceseparator", .category .spaceSeparator),
    ("zl", .category .lineSeparator), ("lineseparator", .category .lineSeparator),
    ("zp", .category .paragraphSeparator), ("paragraphseparator", .category .paragraphSeparator),
    ("c", .other), ("other", .other),
    ("cc", .category .control), ("control", .category .control), ("cntrl", .category .control),
    ("cf", .category .format), ("format", .category .format),
    ("co", .category .privateUse), ("privateuse", .category .privateUse),
    ("cn", .category .unassigned), ("unassigned", .category .unassigned)
  ]

/-- Names of properties that a character has or has not. -/
def binaryNames : List (String × CharProperty) :=
  [
    ("alphabetic", .alphabetic), ("alpha", .alphabetic),
    ("uppercase", .uppercase), ("upper", .uppercase),
    ("lowercase", .lowercase), ("lower", .lowercase),
    ("cased", .cased), ("caseignorable", .caseIgnorable), ("ci", .caseIgnorable),
    ("whitespace", .whitespace), ("wspace", .whitespace), ("space", .whitespace),
    ("extendedpictographic", .pictographic), ("extpict", .pictographic)
  ]

/-- Looks a name up in a list of names. -/
def lookupName (names : List (String × CharProperty)) (name : Text) : Option CharProperty :=
  (names.find? fun e => e.1.toList == name).map (·.2)

/-- The set of a category name; `ascii` is a set of its own. -/
def categorySet? (name : Text) : Option CharSet :=
  if name = "ascii".toList then some (.range 0 0x7F)
  else (lookupName categoryNames name).map .property

/-- The set of a script name. -/
def scriptSet? (name : Text) : Option CharSet :=
  (script? name).map fun _ => .property (.script name)

/-- The set with the given name: of a property, a category or a script. -/
def namedSet? (name : Text) : Option CharSet :=
  let name := normalName name
  ((lookupName binaryNames name).map CharSet.property).orElse fun _ =>
    (categorySet? name).orElse fun _ => scriptSet? name

/-- The set of the characters for which the named property has the named value. -/
def valuedSet? (property value : Text) : Option CharSet :=
  let property := normalName property
  if ["gc", "generalcategory"].any (·.toList == property) then categorySet? (normalName value)
  else if ["sc", "script", "scx", "scriptextensions"].any (·.toList == property) then
    scriptSet? (normalName value)
  else none

/-- The set that is written between the braces of a class, as `name`, `name=value`, `name:value` or
`name!=value`. -/
def classByText? (body : Text) : Option CharSet :=
  match Text.splitFirst? ['!', '='] body with
  | some (property, value) => (valuedSet? property value).map .compl
  | none =>
    match Text.splitFirst? [':'] body with
    | some (property, value) => valuedSet? property value
    | none =>
      match Text.splitFirst? ['='] body with
      | some (property, value) => valuedSet? property value
      | none => namedSet? body

/-- The classes of ASCII characters that can be named in brackets. -/
def asciiClasses : List (String × List (Char × Char)) :=
  [
    ("alnum", [('0', '9'), ('A', 'Z'), ('a', 'z')]),
    ("alpha", [('A', 'Z'), ('a', 'z')]),
    ("ascii", [('\x00', '\x7F')]),
    ("blank", [('\t', '\t'), (' ', ' ')]),
    ("cntrl", [('\x00', '\x1F'), ('\x7F', '\x7F')]),
    ("digit", [('0', '9')]),
    ("graph", [('!', '~')]),
    ("lower", [('a', 'z')]),
    ("print", [(' ', '~')]),
    ("punct", [('!', '/'), (':', '@'), ('[', '\x60'), ('\x7B', '~')]),
    ("space", [('\t', '\r'), (' ', ' ')]),
    ("upper", [('A', 'Z')]),
    ("word", [('0', '9'), ('A', 'Z'), ('_', '_'), ('a', 'z')]),
    ("xdigit", [('0', '9'), ('A', 'F'), ('a', 'f')])
  ]

/-- The set with the given ranges. -/
def ofRanges (ranges : List (Char × Char)) : CharSet :=
  ranges.foldr (fun r set => .union (.range r.1.toNat r.2.toNat) set) .none

/-- The class of ASCII characters with the given name. -/
def asciiClass? (name : Text) : Option CharSet :=
  (asciiClasses.find? fun e => e.1.toList == name).map fun e => ofRanges e.2

end CodeProse.Pattern
