/-
# Source files

The files to check are the files that the user names, whatever they are, and the source files below
the directories that the user names, unless they are ignored there. They are listed in order, each
once.
-/
import CodeProse.FileTree.Basic
import CodeProse.Ignore.Level
import CodeProse.Source.Language

namespace CodeProse.Source

mutual

/-- The paths of the files of a tree that itself has the given path. -/
def filesOf (levels : List IgnoreLevel) (path : Text) : FileTree → List Text
  | .file _ => [path]
  | .directory entries => filesIn levels path entries

/-- The paths of the files below a directory that are not left out. -/
def filesIn (levels : List IgnoreLevel) (dir : Text) : List (Text × FileTree) → List Text
  | [] => []
  | (name, tree) :: rest =>
    (if IgnoreLevel.leavesOut levels name tree.isDirectory then []
      else filesOf (IgnoreLevel.enter name tree levels) (Path.append dir name) tree)
      ++ filesIn levels dir rest

end

/-- The files that a path stands for, given the place that it leads to. -/
def filesAt (path : Text) : Option Place → List Text
  | none => []
  | some ⟨.file _, _⟩ => [path]
  | some place =>
    (filesOf (IgnoreLevel.ofPlace place) path place.tree).filter fun file =>
      (Language.ofPath? file).isSome

/-- Leaves the first of several equal neighbours: paths with the same components. -/
def dropRepeats : List Text → List Text
  | a :: b :: rest =>
    if Path.components a = Path.components b then dropRepeats (a :: rest)
    else a :: dropRepeats (b :: rest)
  | paths => paths

/-- The files that paths stand for. -/
def collect (find? : Text → Option Place) (paths : List Text) : List Text :=
  dropRepeats ((paths.flatMap fun path => filesAt path (find? path)).mergeSort Path.le)

end CodeProse.Source
