/-
# Layers of options

A configuration file sets some options and leaves the others as they are. Files are laid over one
another; an option has the value that the uppermost file gives it.

* `Options.withLayer` lays a layer over options, `OptionLayer.onto` a layer over a layer.
* `OptionLayer.read?` reads the layer of a file.
-/
import CodeProse.Settings
import CodeProse.Toml.Reader

namespace CodeProse

/-- The options that a file sets. -/
structure OptionLayer where
  comments : Option Bool := none
  strings : Option Bool := none
  templates : Option Bool := none
  identifiers : Option Bool := none
  sentences : Option Bool := none
  debug : Option Bool := none
  minLength : Option Nat := none
  skipWords : Option (List Text) := none
  skipIfMatch : Option (List Text) := none
  skipWordIfMatch : Option (List Text) := none
  language : Option Text := none
  confidence : Option Float32 := none
  dictionaryDir : Option Text := none
  weakWords : Option Bool := none
  passiveVoice : Option Bool := none
  terminology : Option Bool := none
  contractions : Option Bool := none
  prohibited : Option Bool := none
  genderNeutral : Option Bool := none
  readability : Option Bool := none
  grammarUrl : Option Text := none
  grammarTimeout : Option Nat := none
  deriving Inhabited

/-- Options with a layer over them. -/
def Options.withLayer (o : Options) (layer : OptionLayer) : Options where
  comments := layer.comments.getD o.comments
  strings := layer.strings.getD o.strings
  templates := layer.templates.getD o.templates
  identifiers := layer.identifiers.getD o.identifiers
  sentences := layer.sentences.getD o.sentences
  debug := layer.debug.getD o.debug
  minLength := layer.minLength.getD o.minLength
  skipWords := layer.skipWords.getD o.skipWords
  skipIfMatch := layer.skipIfMatch.getD o.skipIfMatch
  skipWordIfMatch := layer.skipWordIfMatch.getD o.skipWordIfMatch
  language := layer.language.getD o.language
  confidence := layer.confidence.or o.confidence
  dictionaryDir := layer.dictionaryDir.or o.dictionaryDir
  style := {
    weakWords := layer.weakWords.getD o.style.weakWords
    passiveVoice := layer.passiveVoice.getD o.style.passiveVoice
    terminology := layer.terminology.getD o.style.terminology
    contractions := layer.contractions.getD o.style.contractions
    prohibited := layer.prohibited.getD o.style.prohibited
    genderNeutral := layer.genderNeutral.getD o.style.genderNeutral
    readability := layer.readability.getD o.style.readability }
  grammarUrl := layer.grammarUrl.or o.grammarUrl
  grammarTimeout := layer.grammarTimeout.getD o.grammarTimeout

namespace OptionLayer

/-- One layer over another: what either sets is set, and the upper one decides. -/
def onto (upper lower : OptionLayer) : OptionLayer where
  comments := upper.comments.or lower.comments
  strings := upper.strings.or lower.strings
  templates := upper.templates.or lower.templates
  identifiers := upper.identifiers.or lower.identifiers
  sentences := upper.sentences.or lower.sentences
  debug := upper.debug.or lower.debug
  minLength := upper.minLength.or lower.minLength
  skipWords := upper.skipWords.or lower.skipWords
  skipIfMatch := upper.skipIfMatch.or lower.skipIfMatch
  skipWordIfMatch := upper.skipWordIfMatch.or lower.skipWordIfMatch
  language := upper.language.or lower.language
  confidence := upper.confidence.or lower.confidence
  dictionaryDir := upper.dictionaryDir.or lower.dictionaryDir
  weakWords := upper.weakWords.or lower.weakWords
  passiveVoice := upper.passiveVoice.or lower.passiveVoice
  terminology := upper.terminology.or lower.terminology
  contractions := upper.contractions.or lower.contractions
  prohibited := upper.prohibited.or lower.prohibited
  genderNeutral := upper.genderNeutral.or lower.genderNeutral
  readability := upper.readability.or lower.readability
  grammarUrl := upper.grammarUrl.or lower.grammarUrl
  grammarTimeout := upper.grammarTimeout.or lower.grammarTimeout

end OptionLayer

/-- Options with two layers over them are the options with both layers in one. -/
theorem Options.withLayer_withLayer (o : Options) (lower upper : OptionLayer) :
    (o.withLayer lower).withLayer upper = o.withLayer (upper.onto lower) := by
  simp only [Options.withLayer, OptionLayer.onto, Option.getD_or, Option.or_assoc]

/-! ## Reading -/

namespace Toml

def boolean? : Toml → Option Bool
  | boolean b => some b
  | _ => none

def text? : Toml → Option Text
  | string s => some s
  | _ => none

def texts? : Toml → Option (List Text)
  | array items => items.mapM text?
  | _ => none

/-- An integer that is not negative. -/
def nat? : Toml → Option Nat
  | integer n => if 0 ≤ n then some n.toNat else none
  | _ => none

/-- A number in single precision. -/
def single? : Toml → Option Float32
  | integer n => some (Float32.ofInt n)
  | float x => some x.toFloat32
  | _ => none

/-- The value of a key, which need not be there. A value of another kind is an error. -/
def given? {α : Type} (entries : Entries) (read : Toml → Option α) (key : String) :
    Option (Option α) :=
  match entries.lookup key.toList with
  | none => some none
  | some value => (read value).map some

end Toml

namespace OptionLayer

open Toml in
/-- The layer of a table. Keys that name no option are passed over. -/
def ofEntries? (entries : Entries) : Option OptionLayer := do
  let flag := given? entries boolean?
  let text := given? entries text?
  let texts := given? entries texts?
  let nat := given? entries nat?
  return {
    comments := ← flag "comments"
    strings := ← flag "strings"
    templates := ← flag "templates"
    identifiers := ← flag "identifiers"
    sentences := ← flag "sentences"
    debug := ← flag "debug"
    minLength := ← nat "minLength"
    skipWords := ← texts "skipWords"
    skipIfMatch := ← texts "skipIfMatch"
    skipWordIfMatch := ← texts "skipWordIfMatch"
    language := ← text "lang"
    confidence := ← given? entries single? "confidence"
    dictionaryDir := ← text "langDir"
    weakWords := ← flag "checkWeakWords"
    passiveVoice := ← flag "checkPassiveVoice"
    terminology := ← flag "checkTerminology"
    contractions := ← flag "checkContractions"
    prohibited := ← flag "checkProhibited"
    genderNeutral := ← flag "checkGenderNeutral"
    readability := ← flag "checkReadability"
    grammarUrl := ← text "grammarUrl"
    grammarTimeout := ← nat "grammarTimeoutSecs" }

/-- Reads the layer of a file. -/
def read? (t : Text) : Option OptionLayer :=
  (Toml.read? t).bind ofEntries?

end OptionLayer

end CodeProse
