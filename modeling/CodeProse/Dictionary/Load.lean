/-
# Loading dictionaries

The dictionary of a language is a pair of files in one directory, both named for the language. Both
must be there.
-/
import CodeProse.Dictionary.Cache
import CodeProse.Dictionary.WordList
import CodeProse.FileTree.Basic

namespace CodeProse

namespace WordList

/-- The file of affix rules of a language. -/
def affixFile (dir language : Text) : Text :=
  Path.append dir (language ++ ".aff".toList)

/-- The file of words of a language. -/
def wordFile (dir language : Text) : Text :=
  Path.append dir (language ++ ".dic".toList)

/-- The words of a language, given what can be read at each path. -/
def load? (read : Text → Readable) (dir language : Text) : Option WordList := do
  let _ ← (read (affixFile dir language)).text?
  read? (← (read (wordFile dir language)).text?)

end WordList

/-- Loads dictionaries from a directory. -/
def Loader.ofDirectory (read : Text → Readable) (dir : Text) : Loader := fun _ language =>
  match WordList.load? read dir language with
  | some l => .ok l.dictionary
  | none => .error (.dictionary language)

end CodeProse
