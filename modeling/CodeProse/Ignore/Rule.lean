/-
# Rules for ignoring files

A file of rules has one rule a line: a glob of paths to ignore or, after an exclamation mark, to keep.
A glob without a slash inside holds at any depth, others from the directory of the file on. Of the
rules that match a path the last one decides.
-/
import CodeProse.Ignore.Glob
import CodeProse.Text.Blank
import CodeProse.Text.Search

namespace CodeProse

/-- What a rule says about a path. -/
inductive Verdict where
  | ignore
  | keep
  deriving DecidableEq, Repr, Inhabited

/-- A rule. -/
structure IgnoreRule where
  verdict : Verdict
  /-- Whether the rule holds of directories alone. -/
  directoriesOnly : Bool
  glob : Pattern
  deriving Repr, Inhabited

namespace IgnoreRule

/-- Whether the rule is about a path. -/
def applies (rule : IgnoreRule) (path : Text) (isDirectory : Bool) : Bool :=
  (isDirectory || !rule.directoriesOnly) && rule.glob.matchesIn path.bytes

/-- Whether a text ends with another. -/
def endsWith (stop t : Text) : Bool :=
  (Text.dropStart? stop.reverse t.reverse).isSome

/-- The glob for paths at any depth. -/
def atAnyDepth (glob : Text) : Text :=
  if (Text.dropStart? ['*', '*', '/'] glob).isSome || glob == ['*', '*'] then glob
  else '*' :: '*' :: '/' :: glob

/-- A rule, after the mark of rules that keep. -/
def ofGlob? (verdict : Verdict) (anchored : Bool) (glob : Text) : Option IgnoreRule :=
  let (directoriesOnly, glob) :=
    match glob.reverse with
    | '/' :: '\\' :: rest => (true, rest.reverse)
    | '/' :: rest => (true, rest.reverse)
    | _ => (false, glob)
  let glob := if anchored || glob.contains '/' then glob else atAnyDepth glob
  let glob := if endsWith ['/', '*', '*'] glob then glob ++ ['/', '*'] else glob
  (Glob.read? glob).map (⟨verdict, directoriesOnly, ·⟩)

/-- The rule of a line. Empty lines, remarks, and globs that make no sense give none. -/
def ofLine? (line : Text) : Option IgnoreRule :=
  let line := if endsWith ['\\', ' '] line then line else Text.trimEnd line
  match line with
  | [] | '#' :: _ => none
  | '\\' :: '!' :: t => ofGlob? .ignore false ('!' :: t)
  | '\\' :: '#' :: t => ofGlob? .ignore false ('#' :: t)
  | '!' :: '/' :: t => ofGlob? .keep true t
  | '!' :: t => ofGlob? .keep false t
  | '/' :: t => ofGlob? .ignore true t
  | t => ofGlob? .ignore false t

/-- The rules of a file, the last one first. -/
def ofFile (t : Text) : List IgnoreRule :=
  let t := t.dropWhile (· == '\uFEFF')
  ((Text.splitOn '\n' t).filterMap ofLine?).reverse

/-- What rules, the last one first, say about a path. -/
def verdict? (rules : List IgnoreRule) (path : Text) (isDirectory : Bool) : Option Verdict :=
  (rules.find? (·.applies path isDirectory)).map (·.verdict)

end IgnoreRule

end CodeProse
