/-
# The active dictionary

One dictionary is active at a time. It is loaded when its language is first asked for, and replaced
as a whole when another language is; a load that fails leaves it as it is.
-/
import CodeProse.Dictionary.Basic
import CodeProse.Error

namespace CodeProse

/-- A way to load the dictionary of a language. It may depend on the languages that were loaded
before, the last one first. -/
abbrev Loader := List Text → Text → Except CheckError Dictionary

/-- The active dictionary, with its language, and the languages that a load was tried for, the last
one first. -/
structure DictionaryCache where
  active : Option (Text × Dictionary) := none
  loads : List Text := []
  deriving Inhabited

namespace DictionaryCache

/-- The language of the active dictionary. -/
def language? (cache : DictionaryCache) : Option Text :=
  cache.active.map (·.1)

/-- Loads the dictionary of a language, even if it is active. -/
def reload (load : Loader) (language : Text) (cache : DictionaryCache) :
    Except CheckError Dictionary × DictionaryCache :=
  let loads := language :: cache.loads
  match load cache.loads language with
  | .ok d => (.ok d, ⟨some (language, d), loads⟩)
  | .error e => (.error e, { cache with loads })

/-- The dictionary of a language; it is loaded if another one is active. -/
def get (load : Loader) (language : Text) (cache : DictionaryCache) :
    Except CheckError Dictionary × DictionaryCache :=
  match cache.active with
  | some (active, d) => if active = language then (.ok d, cache) else cache.reload load language
  | none => cache.reload load language

end DictionaryCache

end CodeProse
