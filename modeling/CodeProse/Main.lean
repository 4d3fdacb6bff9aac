/-
# The command

Connects the command to the file system, the environment and the terminal. There is no network:
requests get no reply.
-/
import CodeProse.CommandLine.Run

namespace CodeProse.CommandLine

/-- What the file system has to read at a path. -/
def readFile (path : Text) : IO Readable := do
  try
    return .text (← IO.FS.readFile (String.ofList path)).toList
  catch _ =>
    try
      let _ ← IO.FS.realPath (String.ofList path)
      return .unreadable
    catch _ => return .missing

/-- Gives a file of the file system another content. -/
def writeFile (path content : Text) : IO Bool := do
  try
    IO.FS.writeFile (String.ofList path) (String.ofList content)
    return true
  catch _ => return false

/-- The file of rules at a path, if there is one. -/
def ruleFile (path : String) : IO (Option FileTree) := do
  match ← readFile path.toList with
  | .text t => return some (.file (.text t))
  | _ => return none

/-- The file of rules that are not shared, at the place where a repository keeps it. -/
def repository (path : String) : IO (Option FileTree) := do
  match ← readFile path.toList with
  | .missing => return none
  | _ =>
    match ← ruleFile (path ++ "/info/exclude") with
    | some rules => return some (FileTree.put rules IgnoreLevel.excludeFile (.directory []))
    | none => return some (.directory [])

/-- The rules of a directory, without anything else that is in it. -/
def rulesIn (dir : String) : IO (List (Text × FileTree)) := do
  let named (name : Text) (look : String → IO (Option FileTree)) : IO (List (Text × FileTree)) := do
    return ((← look (dir ++ "/" ++ String.ofList name)).map (name, ·)).toList
  return (← named IgnoreLevel.generalFile ruleFile) ++ (← named IgnoreLevel.versionedFile ruleFile)
    ++ (← named IgnoreLevel.repositoryDir repository)

/-- The tree below a path. Contents are read of rules alone, and links are not followed. -/
partial def snapshot (path : String) : IO FileTree := do
  let real ← IO.FS.realPath path
  if ← real.isDir then
    let rules ← rulesIn path
    let mut entries := rules
    for entry in ← real.readDir do
      let name := entry.fileName.toList
      if (rules.lookup name).isNone then
        let isLink := (← entry.path.symlinkMetadata).type matches .symlink
        let tree ← if isLink then pure (.file .binary) else snapshot entry.path.toString
        entries := entries ++ [(name, tree)]
    return .directory entries
  else return .file .binary

/-- The directories above a path, with their rules. -/
partial def directoriesAbove (path : String) : IO (List (Text × FileTree)) := do
  let real ← IO.FS.realPath path
  match real.parent with
  | some dir =>
    let here := ((real.fileName.getD "").toList, FileTree.directory (← rulesIn dir.toString))
    return here :: (← directoriesAbove dir.toString)
  | none => return []

/-- The place of the file system that a path leads to. -/
def findPlace (path : Text) : IO (Option Place) := do
  let path := String.ofList path
  try
    return some ⟨← snapshot path, ← directoriesAbove path⟩
  catch _ => return none

/-- The file system. -/
def fileSystem : Files IO where
  read := readFile
  find? := findPlace
  write := writeFile

/-- A variable of the environment. -/
def valueOf (name : String) : IO (Option Text) := do
  return (← IO.getEnv name).map String.toList

/-- The directory that a variable names or, if it does not, one below the home directory. -/
def userDirectory (name fallback : String) : IO Text := do
  match ← valueOf name with
  | some dir => return Path.append dir "grammarchk".toList
  | none =>
    let home := (← valueOf "HOME").getD []
    return Path.append (Path.append home fallback.toList) "grammarchk".toList

/-- What surrounds the command. -/
def environment : IO Environment := do
  let isTerminal ← (← IO.getStdout).isTty
  let color := Output.usesColor (← valueOf "CLICOLOR_FORCE") (← valueOf "NO_COLOR")
    (← valueOf "CLICOLOR") isTerminal
  let configuration := Path.append (← userDirectory "XDG_CONFIG_HOME" ".config") "config.toml".toList
  return {
    user := ⟨configuration, ← userDirectory "XDG_DATA_HOME" ".local/share"⟩
    grammarUrl := ← valueOf "GRAMMARCHK_GRAMMAR_URL"
    color }

end CodeProse.CommandLine

open CodeProse CommandLine in
/-- Runs the command with the arguments of the process. -/
def main (args : List String) : IO UInt32 := do
  let outcome ← run fileSystem (← environment) (args.map String.toList)
  IO.print (String.ofList outcome.output)
  match outcome.failure with
  | some failure => IO.eprintln ("Error: " ++ String.ofList failure.message)
  | none => if outcome.code = 2 then IO.eprintln "The arguments make no sense; see --help."
  return UInt32.ofNat outcome.code
