/-
# Running the command

The command loads the options and the dictionary, finds the files, checks them, and then either lists
the reports or fixes the files. It reaches the file system only through the operations of `Files`, so
that it runs on a real one as well as on a file tree.
-/
import CodeProse.Checker
import CodeProse.CommandLine.Arguments
import CodeProse.Dictionary.Load
import CodeProse.Grammar.Client
import CodeProse.Options.Load
import CodeProse.Source.Files

namespace CodeProse.CommandLine

/-- Access to a file system. -/
structure Files (m : Type → Type) where
  /-- What can be read at a path. -/
  read : Text → m Readable
  /-- The place that a path leads to. Of files below a directory there, nobody reads the contents
  but those of rules for ignoring files. -/
  find? : Text → m (Option Place)
  /-- Gives a file another content; says whether that could be done. -/
  write : Text → Text → m Bool

/-- What surrounds a run. -/
structure Environment where
  user : UserPaths
  /-- The address of a grammar server, unless the arguments give one. -/
  grammarUrl : Option Text := none
  /-- Whether output is coloured, unless the arguments forbid it. -/
  color : Bool := false
  /-- What the network replies to each request. -/
  network : Grammar.HttpRequest → Grammar.HttpReply := fun _ => .dropped

/-- Why a run fails. -/
inductive Failure where
  | configuration (e : ConfigurationError)
  | noPaths
  | settings (e : CheckError)
  | dictionary (language : Text)
  | notWritten (path : Text)
  deriving Repr, Inhabited

/-- The wording of a failure. -/
def Failure.message : Failure → Text
  | configuration e => e.message
  | noPaths => "No paths specified. Use --help for usage information.".toList
  | settings _ => "Invalid configuration".toList
  | dictionary language => "Failed to load dictionary ".toList ++ language
  | notWritten path => "Failed to write ".toList ++ path

/-- How a run ends. -/
structure Outcome where
  code : Nat
  output : Text := []
  failure : Option Failure := none
  deriving Repr, Inhabited

/-! ## Stages -/

/-- Checks files one after the other. -/
def checkFiles (load : Loader) (service : Option GrammarService) (s : Settings) :
    List (Text × Text) → DictionaryCache → List Output.FileReport
  | [], _ => []
  | (path, content) :: rest, cache =>
    let (found, cache) := Checker.checkSource load service s path content cache
    ⟨path, content, found.2⟩ :: checkFiles load service s rest cache

/-- The grammar service that options ask for. -/
def service? (network : Grammar.HttpRequest → Grammar.HttpReply) (o : Options) :
    Option GrammarService :=
  if o.sentences then o.grammarUrl.map (Grammar.Client.service network) else none

/-- The sum of counts. -/
def total (counts : List Nat) : Nat :=
  counts.foldl (· + ·) 0

/-- The files that change, with their new contents, and the number of corrections. -/
def fixes (files : List Output.FileReport) : List (Text × Text) × Nat :=
  let fixed := files.map fun f => (f.path, applyFixes f.content f.reports)
  (fixed.filterMap fun f => if f.2.2 = 0 then none else some (f.1, f.2.1),
    total (fixed.map fun f => f.2.2))

/-- What is printed about the reports of `count` files, and the code to end with. -/
def listing (a : Arguments) (color : Bool) (files : List Output.FileReport) (count : Nat) :
    Outcome :=
  let format := a.format.getD .text
  let found := total (files.map (·.reports.length))
  let summary := if format = .text then Output.checkSummary color found count else []
  { code := if found ≠ 0 ∧ !a.noFail then 1 else 0
    output := Output.listing format color files ++ summary }

/-! ## The run -/

section

variable {m : Type → Type} [Monad m]

/-- Reads some paths beforehand: what can be read at each of them. -/
def Files.readAll (files : Files m) (paths : List Text) : m (Text → Readable) := do
  let found ← paths.mapM fun path => do return (path, ← files.read path)
  return fun path => (found.lookup path).getD .missing

/-- Finds some paths beforehand: the place that each of them leads to. -/
def Files.findAll (files : Files m) (paths : List Text) : m (Text → Option Place) := do
  let found ← paths.mapM fun path => do return (path, ← files.find? path)
  return fun path => (found.lookup path).join

/-- Passes an error on as a failure. -/
def orFail {ε α : Type} (failure : ε → Failure) : Except ε α → ExceptT Failure m α
  | .ok a => pure a
  | .error e => throw (failure e)

/-- Runs the command for arguments that make sense. -/
def runWith (files : Files m) (env : Environment) (a : Arguments) : ExceptT Failure m Outcome := do
  let read ← files.readAll (Options.candidates env.user a.configuration)
  let options ← orFail .configuration (Options.load read env.user a.configuration)
  let options := { a with grammarUrl := a.grammarUrl.or env.grammarUrl }.apply options
  if a.paths.isEmpty then throw .noPaths
  let settings ← orFail .settings (Settings.ofOptions options)
  let dir := options.dictionaries env.user
  let language := options.language
  let read ← files.readAll [WordList.affixFile dir language, WordList.wordFile dir language]
  let load := Loader.ofDirectory read dir
  let _ ← orFail (fun _ => .dictionary language) (load [] language)
  let paths := Source.collect (← files.findAll a.paths) a.paths
  let read ← files.readAll paths
  let contents := paths.filterMap fun path => (read path).text?.map (path, ·)
  let found := checkFiles load (service? env.network options) settings contents {}
  let color := env.color && !a.noColor
  if a.fix then
    let (changed, total) := fixes found
    for (path, content) in changed do
      unless ← files.write path content do throw (.notWritten path)
    return { code := 0, output := Output.fixSummary color total paths.length }
  else return listing a color found paths.length

/-- The name and version of the program. -/
def versionLine : Text := "grammarchk 0.1.0\n".toList

/-- A summary of the arguments. -/
def usage : Text :=
  "Usage: grammarchk [OPTIONS] [PATHS]...\n\nOptions:\n".toList
    ++ longNames.flatMap fun n =>
      let value := match n.2 with
        | .switch _ => ""
        | .setting _ => " <VALUE>"
      ("      --" ++ n.1 ++ value ++ "\n").toList

/-- Runs the command. -/
def run (files : Files m) (env : Environment) (args : List Text) : m Outcome :=
  match Arguments.read args with
  | .error .misuse => return { code := 2 }
  | .error .help => return { code := 0, output := usage }
  | .error .version => return { code := 0, output := versionLine }
  | .ok a =>
    if a.completion.isSome then return { code := 0 }
    else do
      match ← (runWith files env a).run with
      | .ok outcome => return outcome
      | .error failure => return { code := 1, failure := some failure }

end

end CodeProse.CommandLine
