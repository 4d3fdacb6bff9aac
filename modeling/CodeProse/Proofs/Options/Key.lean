/-
# Options by key

Options, the layer of a file and the names in a file are three lists of the same keys. Here they are
functions of the key (`Options.get`, `OptionLayer.get?`, `OptionKey.name`): a layer is laid over
options, or over another layer, one key at a time (`Options.get_withLayer`,
`OptionLayer.get?_onto`), and it sets just what is written in its file
(`OptionLayer.read?_eq_some_iff`).
-/
import CodeProse.Options.Layer
import Mathlib.Data.Option.Basic

namespace CodeProse

/-! ## Keys -/

/-- What options are told apart by. -/
inductive OptionKey where
  | comments
  | strings
  | templates
  | identifiers
  | sentences
  | debug
  | minLength
  | skipWords
  | skipIfMatch
  | skipWordIfMatch
  | language
  | confidence
  | dictionaryDir
  | weakWords
  | passiveVoice
  | terminology
  | contractions
  | prohibited
  | genderNeutral
  | readability
  | grammarUrl
  | grammarTimeout
  deriving DecidableEq, Repr

namespace OptionKey

/-- What an option has under a key. -/
def Value : OptionKey → Type
  | minLength | grammarTimeout => Nat
  | skipWords | skipIfMatch | skipWordIfMatch => List Text
  | language => Text
  | confidence => Option Float32
  | dictionaryDir | grammarUrl => Option Text
  | _ => Bool

/-- The name of a key in a file. -/
def name : OptionKey → String
  | comments => "comments"
  | strings => "strings"
  | templates => "templates"
  | identifiers => "identifiers"
  | sentences => "sentences"
  | debug => "debug"
  | minLength => "minLength"
  | skipWords => "skipWords"
  | skipIfMatch => "skipIfMatch"
  | skipWordIfMatch => "skipWordIfMatch"
  | language => "lang"
  | confidence => "confidence"
  | dictionaryDir => "langDir"
  | weakWords => "checkWeakWords"
  | passiveVoice => "checkPassiveVoice"
  | terminology => "checkTerminology"
  | contractions => "checkContractions"
  | prohibited => "checkProhibited"
  | genderNeutral => "checkGenderNeutral"
  | readability => "checkReadability"
  | grammarUrl => "grammarUrl"
  | grammarTimeout => "grammarTimeoutSecs"

/-- What a value in a file means under a key. -/
def read : (k : OptionKey) → Toml → Option k.Value
  | comments | strings | templates | identifiers | sentences | debug => Toml.boolean?
  | weakWords | passiveVoice | terminology | contractions => Toml.boolean?
  | prohibited | genderNeutral | readability => Toml.boolean?
  | minLength | grammarTimeout => Toml.nat?
  | skipWords | skipIfMatch | skipWordIfMatch => Toml.texts?
  | language => Toml.text?
  | confidence => fun value => (Toml.single? value).map some
  | dictionaryDir | grammarUrl => fun value => (Toml.text? value).map some

end OptionKey

open OptionKey

/-- The value that options have under a key. -/
def Options.get (o : Options) : (k : OptionKey) → k.Value
  | .comments => o.comments
  | .strings => o.strings
  | .templates => o.templates
  | .identifiers => o.identifiers
  | .sentences => o.sentences
  | .debug => o.debug
  | .minLength => o.minLength
  | .skipWords => o.skipWords
  | .skipIfMatch => o.skipIfMatch
  | .skipWordIfMatch => o.skipWordIfMatch
  | .language => o.language
  | .confidence => o.confidence
  | .dictionaryDir => o.dictionaryDir
  | .weakWords => o.style.weakWords
  | .passiveVoice => o.style.passiveVoice
  | .terminology => o.style.terminology
  | .contractions => o.style.contractions
  | .prohibited => o.style.prohibited
  | .genderNeutral => o.style.genderNeutral
  | .readability => o.style.readability
  | .grammarUrl => o.grammarUrl
  | .grammarTimeout => o.grammarTimeout

/-- The value that a layer sets under a key, if it does. -/
def OptionLayer.get? (layer : OptionLayer) : (k : OptionKey) → Option k.Value
  | .comments => layer.comments
  | .strings => layer.strings
  | .templates => layer.templates
  | .identifiers => layer.identifiers
  | .sentences => layer.sentences
  | .debug => layer.debug
  | .minLength => layer.minLength
  | .skipWords => layer.skipWords
  | .skipIfMatch => layer.skipIfMatch
  | .skipWordIfMatch => layer.skipWordIfMatch
  | .language => layer.language
  | .confidence => layer.confidence.map some
  | .dictionaryDir => layer.dictionaryDir.map some
  | .weakWords => layer.weakWords
  | .passiveVoice => layer.passiveVoice
  | .terminology => layer.terminology
  | .contractions => layer.contractions
  | .prohibited => layer.prohibited
  | .genderNeutral => layer.genderNeutral
  | .readability => layer.readability
  | .grammarUrl => layer.grammarUrl.map some
  | .grammarTimeout => layer.grammarTimeout

/-! ## Laying over -/

/-- An option that may be left open is set to a value, never to being open. -/
theorem OptionLayer.map_some_injective {α : Type} :
    Function.Injective (Option.map (some : α → Option α)) :=
  Option.map_injective (Option.some_injective α)

/-- Options have nothing that is not under a key. -/
theorem Options.ext_get {o o' : Options} (h : ∀ k, o.get k = o'.get k) : o = o' := by
  obtain ⟨_, _, _, _, _, _, _, _, _, _, _, _, _, ⟨_, _, _, _, _, _, _⟩, _, _⟩ := o
  obtain ⟨_, _, _, _, _, _, _, _, _, _, _, _, _, ⟨_, _, _, _, _, _, _⟩, _, _⟩ := o'
  simp only [Options.mk.injEq, Style.StyleChecks.mk.injEq]
  exact ⟨h .comments, h .strings, h .templates, h .identifiers, h .sentences, h .debug,
    h .minLength, h .skipWords, h .skipIfMatch, h .skipWordIfMatch, h .language, h .confidence,
    h .dictionaryDir, ⟨h .weakWords, h .passiveVoice, h .terminology, h .contractions,
    h .prohibited, h .genderNeutral, h .readability⟩, h .grammarUrl, h .grammarTimeout⟩

/-- A layer sets nothing that is not under a key. -/
theorem OptionLayer.ext_get? {layer layer' : OptionLayer}
    (h : ∀ k, layer.get? k = layer'.get? k) : layer = layer' := by
  obtain ⟨_, _, _, _, _, _, _, _, _, _, _, _, _, _, _, _, _, _, _, _, _, _⟩ := layer
  obtain ⟨_, _, _, _, _, _, _, _, _, _, _, _, _, _, _, _, _, _, _, _, _, _⟩ := layer'
  simp only [OptionLayer.mk.injEq]
  exact ⟨h .comments, h .strings, h .templates, h .identifiers, h .sentences, h .debug,
    h .minLength, h .skipWords, h .skipIfMatch, h .skipWordIfMatch, h .language,
    map_some_injective (h .confidence), map_some_injective (h .dictionaryDir), h .weakWords,
    h .passiveVoice, h .terminology, h .contractions, h .prohibited, h .genderNeutral,
    h .readability, map_some_injective (h .grammarUrl), h .grammarTimeout⟩

/-- **A layer decides what it sets,** and nothing else. -/
theorem Options.get_withLayer (o : Options) (layer : OptionLayer) (k : OptionKey) :
    (o.withLayer layer).get k = (layer.get? k).getD (o.get k) := by
  have hoption : ∀ {α : Type} (new old : Option α), new.or old = (new.map some).getD old := by
    intro α new old
    cases new <;> rfl
  cases k with
  | confidence => exact hoption _ _
  | dictionaryDir => exact hoption _ _
  | grammarUrl => exact hoption _ _
  | _ => rfl

/-- **The upper layer decides what it sets,** and the lower one the rest. -/
theorem OptionLayer.get?_onto (upper lower : OptionLayer) (k : OptionKey) :
    (upper.onto lower).get? k = (upper.get? k).or (lower.get? k) := by
  cases k with
  | confidence => exact Option.map_or
  | dictionaryDir => exact Option.map_or
  | grammarUrl => exact Option.map_or
  | _ => rfl

/-! ## Files -/

/-- What a table has under a key is read, if it has something there. -/
theorem Toml.given?_eq_some_iff {α : Type} {entries : Entries} {read : Toml → Option α}
    {key : String} {x : Option α} :
    given? entries read key = some x ↔
      entries.lookup key.toList = none ∧ x = none ∨
        ∃ value v, entries.lookup key.toList = some value ∧ read value = some v ∧ x = some v := by
  unfold given?
  cases entries.lookup key.toList with
  | none => simp [eq_comm]
  | some value => simp [Option.map_eq_some_iff, eq_comm]

/-- A value that is read further on, in a table. -/
theorem Toml.given?_map {α β : Type} (entries : Entries) (read : Toml → Option α) (f : α → β)
    (key : String) :
    given? entries (fun value => (read value).map f) key =
      (given? entries read key).map (Option.map f) := by
  unfold given?
  cases entries.lookup key.toList with
  | none => rfl
  | some value => cases h : read value <;> simp [h]

/-- An option that may be left open, in a table. -/
theorem Toml.given?_of_map {α : Type} {entries : Entries} {read : Toml → Option α} {key : String}
    {x : Option α}
    (h : given? entries (fun value => (read value).map some) key = some (x.map some)) :
    given? entries read key = some x := by
  rw [given?_map] at h
  obtain ⟨y, hy, hyx⟩ := Option.map_eq_some_iff.1 h
  rw [hy, OptionLayer.map_some_injective hyx]

namespace OptionLayer

open Toml

variable {entries : Toml.Entries} {layer : OptionLayer}

/-- A layer that is read from a table has what the table gives under each key. -/
theorem given?_of_ofEntries? (h : ofEntries? entries = some layer) (k : OptionKey) :
    Toml.given? entries k.read k.name = some (layer.get? k) := by
  unfold ofEntries? at h
  obtain ⟨_, hcomments, h⟩ := Option.bind_eq_some_iff.1 h
  obtain ⟨_, hstrings, h⟩ := Option.bind_eq_some_iff.1 h
  obtain ⟨_, htemplates, h⟩ := Option.bind_eq_some_iff.1 h
  obtain ⟨_, hidentifiers, h⟩ := Option.bind_eq_some_iff.1 h
  obtain ⟨_, hsentences, h⟩ := Option.bind_eq_some_iff.1 h
  obtain ⟨_, hdebug, h⟩ := Option.bind_eq_some_iff.1 h
  obtain ⟨_, hminLength, h⟩ := Option.bind_eq_some_iff.1 h
  obtain ⟨_, hskipWords, h⟩ := Option.bind_eq_some_iff.1 h
  obtain ⟨_, hskipIfMatch, h⟩ := Option.bind_eq_some_iff.1 h
  obtain ⟨_, hskipWordIfMatch, h⟩ := Option.bind_eq_some_iff.1 h
  obtain ⟨_, hlanguage, h⟩ := Option.bind_eq_some_iff.1 h
  obtain ⟨_, hconfidence, h⟩ := Option.bind_eq_some_iff.1 h
  obtain ⟨_, hdictionaryDir, h⟩ := Option.bind_eq_some_iff.1 h
  obtain ⟨_, hweakWords, h⟩ := Option.bind_eq_some_iff.1 h
  obtain ⟨_, hpassiveVoice, h⟩ := Option.bind_eq_some_iff.1 h
  obtain ⟨_, hterminology, h⟩ := Option.bind_eq_some_iff.1 h
  obtain ⟨_, hcontractions, h⟩ := Option.bind_eq_some_iff.1 h
  obtain ⟨_, hprohibited, h⟩ := Option.bind_eq_some_iff.1 h
  obtain ⟨_, hgenderNeutral, h⟩ := Option.bind_eq_some_iff.1 h
  obtain ⟨_, hreadability, h⟩ := Option.bind_eq_some_iff.1 h
  obtain ⟨_, hgrammarUrl, h⟩ := Option.bind_eq_some_iff.1 h
  obtain ⟨_, hgrammarTimeout, h⟩ := Option.bind_eq_some_iff.1 h
  obtain rfl := Option.some.inj h
  cases k with
  | comments => exact hcomments
  | strings => exact hstrings
  | templates => exact htemplates
  | identifiers => exact hidentifiers
  | sentences => exact hsentences
  | debug => exact hdebug
  | minLength => exact hminLength
  | skipWords => exact hskipWords
  | skipIfMatch => exact hskipIfMatch
  | skipWordIfMatch => exact hskipWordIfMatch
  | language => exact hlanguage
  | confidence => exact (given?_map _ _ _ _).trans (congrArg _ hconfidence)
  | dictionaryDir => exact (given?_map _ _ _ _).trans (congrArg _ hdictionaryDir)
  | weakWords => exact hweakWords
  | passiveVoice => exact hpassiveVoice
  | terminology => exact hterminology
  | contractions => exact hcontractions
  | prohibited => exact hprohibited
  | genderNeutral => exact hgenderNeutral
  | readability => exact hreadability
  | grammarUrl => exact (given?_map _ _ _ _).trans (congrArg _ hgrammarUrl)
  | grammarTimeout => exact hgrammarTimeout

/-- A table that gives what a layer has under each key is read as that layer. -/
theorem ofEntries?_of_given?
    (h : ∀ k : OptionKey, Toml.given? entries k.read k.name = some (layer.get? k)) :
    ofEntries? entries = some layer := by
  unfold ofEntries?
  refine Option.bind_eq_some_iff.2 ⟨_, h .comments, ?_⟩
  refine Option.bind_eq_some_iff.2 ⟨_, h .strings, ?_⟩
  refine Option.bind_eq_some_iff.2 ⟨_, h .templates, ?_⟩
  refine Option.bind_eq_some_iff.2 ⟨_, h .identifiers, ?_⟩
  refine Option.bind_eq_some_iff.2 ⟨_, h .sentences, ?_⟩
  refine Option.bind_eq_some_iff.2 ⟨_, h .debug, ?_⟩
  refine Option.bind_eq_some_iff.2 ⟨_, h .minLength, ?_⟩
  refine Option.bind_eq_some_iff.2 ⟨_, h .skipWords, ?_⟩
  refine Option.bind_eq_some_iff.2 ⟨_, h .skipIfMatch, ?_⟩
  refine Option.bind_eq_some_iff.2 ⟨_, h .skipWordIfMatch, ?_⟩
  refine Option.bind_eq_some_iff.2 ⟨_, h .language, ?_⟩
  refine Option.bind_eq_some_iff.2 ⟨_, given?_of_map (h .confidence), ?_⟩
  refine Option.bind_eq_some_iff.2 ⟨_, given?_of_map (h .dictionaryDir), ?_⟩
  refine Option.bind_eq_some_iff.2 ⟨_, h .weakWords, ?_⟩
  refine Option.bind_eq_some_iff.2 ⟨_, h .passiveVoice, ?_⟩
  refine Option.bind_eq_some_iff.2 ⟨_, h .terminology, ?_⟩
  refine Option.bind_eq_some_iff.2 ⟨_, h .contractions, ?_⟩
  refine Option.bind_eq_some_iff.2 ⟨_, h .prohibited, ?_⟩
  refine Option.bind_eq_some_iff.2 ⟨_, h .genderNeutral, ?_⟩
  refine Option.bind_eq_some_iff.2 ⟨_, h .readability, ?_⟩
  refine Option.bind_eq_some_iff.2 ⟨_, given?_of_map (h .grammarUrl), ?_⟩
  refine Option.bind_eq_some_iff.2 ⟨_, h .grammarTimeout, ?_⟩
  rfl

/-- **A table gives a layer its keys.** The layer can be read if the values of all the keys in the
table can, and it sets these keys and no others. -/
theorem ofEntries?_eq_some_iff (entries : Toml.Entries) (layer : OptionLayer) :
    ofEntries? entries = some layer ↔
      ∀ k : OptionKey, Toml.given? entries k.read k.name = some (layer.get? k) :=
  ⟨given?_of_ofEntries?, ofEntries?_of_given?⟩

/-- A layer has under a key what a table has there, and nothing if the table has nothing. -/
def IsSetBy (layer : OptionLayer) (entries : Toml.Entries) (k : OptionKey) : Prop :=
  entries.lookup k.name.toList = none ∧ layer.get? k = none ∨
    ∃ value v, entries.lookup k.name.toList = some value ∧ k.read value = some v ∧
      layer.get? k = some v

/-- **A file sets just the keys that are written in it,** to the values that are written there. It
can be read if these values can. -/
theorem read?_eq_some_iff (t : Text) (layer : OptionLayer) :
    read? t = some layer ↔
      ∃ entries, Toml.read? t = some entries ∧ ∀ k, layer.IsSetBy entries k := by
  rw [read?, Option.bind_eq_some_iff]
  refine exists_congr fun entries => and_congr_right fun _ => ?_
  rw [ofEntries?_eq_some_iff]
  exact forall_congr' fun k => given?_eq_some_iff

end OptionLayer

end CodeProse
