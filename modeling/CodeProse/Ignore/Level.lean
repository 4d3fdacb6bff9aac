/-
# The rules of nested directories

Each directory may have rules of its own. Rules for all tools come first, then those of the version
control system, which hold only below the top directory of a repository, and of each kind those of
the nearest directory that says anything. Files that no rule is about are ignored if they are hidden.
-/
import CodeProse.FileTree.Basic
import CodeProse.Ignore.Rule

namespace CodeProse

/-- The rules of a directory, as seen from one below it or from itself. -/
structure IgnoreLevel where
  /-- The names that lead from the directory of the rules to the one they are seen from. -/
  below : List Text
  /-- Whether the directory is the top of a repository. -/
  isRepository : Bool
  /-- The rules for all tools. -/
  general : List IgnoreRule
  /-- The rules of the version control system. -/
  versioned : List IgnoreRule
  /-- The rules of the version control system that are not shared. -/
  excluded : List IgnoreRule
  deriving Repr, Inhabited

namespace IgnoreLevel

/-- The file of rules for all tools. -/
def generalFile : Text := ".ignore".toList

/-- The file of rules of the version control system. -/
def versionedFile : Text := ".gitignore".toList

/-- The directory of a repository. -/
def repositoryDir : Text := ".git".toList

/-- The names that lead from there to its rules. -/
def excludeFile : List Text := ["info".toList, "exclude".toList]

/-- The rules of a file, if there is one. -/
def rulesOf : Option FileTree → List IgnoreRule
  | some (.file (.text t)) => IgnoreRule.ofFile t
  | _ => []

/-- The level of a directory. -/
def ofDirectory (below : List Text) (tree : FileTree) : IgnoreLevel :=
  let repository := tree.child? repositoryDir
  { below
    isRepository := repository.isSome
    general := rulesOf (tree.child? generalFile)
    versioned := rulesOf (tree.child? versionedFile)
    excluded := rulesOf (repository.bind fun r => excludeFile.foldlM FileTree.child? r) }

/-- The levels of the directories above a place, seen from the place, the nearest first. -/
def above (below : List Text) : List (Text × FileTree) → List IgnoreLevel
  | [] => []
  | (name, tree) :: rest => ofDirectory (name :: below) tree :: above (name :: below) rest

/-- The levels seen from a place that is a directory. -/
def ofPlace (place : Place) : List IgnoreLevel :=
  ofDirectory [] place.tree :: above [] place.above

/-- The levels seen from a directory below. -/
def enter (name : Text) (tree : FileTree) (levels : List IgnoreLevel) : List IgnoreLevel :=
  ofDirectory [] tree :: levels.map fun l => { l with below := l.below ++ [name] }

/-- The path of something in the directory, from the directory of the rules on. -/
def path (level : IgnoreLevel) (name : Text) : Text :=
  Text.join ['/'] (level.below ++ [name])

/-- The levels up to the top of the repository; none outside of one. -/
def inRepository (levels : List IgnoreLevel) : List IgnoreLevel :=
  if levels.any (·.isRepository) then
    levels.takeWhile (!·.isRepository) ++ (levels.find? (·.isRepository)).toList
  else []

/-- What the nearest level that says anything says about a name. -/
def nearest? (rules : IgnoreLevel → List IgnoreRule) (levels : List IgnoreLevel) (name : Text)
    (isDirectory : Bool) : Option Verdict :=
  levels.findSome? fun level =>
    IgnoreRule.verdict? (rules level) (level.path name) isDirectory

/-- What the rules say about a name in the directory. -/
def verdict? (levels : List IgnoreLevel) (name : Text) (isDirectory : Bool) : Option Verdict :=
  (nearest? general levels name isDirectory).or
    ((nearest? versioned (inRepository levels) name isDirectory).or
      (nearest? excluded (inRepository levels) name isDirectory))

/-- Whether a name is hidden. -/
def isHidden (name : Text) : Bool :=
  name.head? == some '.'

/-- Whether a name in the directory is left out. -/
def leavesOut (levels : List IgnoreLevel) (name : Text) (isDirectory : Bool) : Bool :=
  match verdict? levels name isDirectory with
  | some .ignore => true
  | some .keep => false
  | none => isHidden name

end IgnoreLevel

end CodeProse
