/-
# Loading options

Options come from a file that the user names, and from that alone; or else from the file of the user
and the file of the project, the latter over the former. Where no file is, nothing is set.
-/
import CodeProse.FileTree.Basic
import CodeProse.Options.Layer

namespace CodeProse

/-- Why a configuration file is of no use. -/
inductive ConfigurationError where
  | unreadable (path : Text)
  | malformed (path : Text)
  deriving DecidableEq, Repr, Inhabited

/-- The wording of the error. -/
def ConfigurationError.message : ConfigurationError → Text
  | unreadable path => "Failed to read config file: ".toList ++ path
  | malformed path => "Failed to parse config file: ".toList ++ path

/-- The name of the file of a project. -/
def localConfiguration : Text := ".grammarchk.toml".toList

/-- Where the files of the user are. -/
structure UserPaths where
  configuration : Text
  dictionaryDir : Text
  deriving DecidableEq, Repr, Inhabited

namespace OptionLayer

/-- The layer of a file that must be there. -/
def load (read : Text → Readable) (path : Text) : Except ConfigurationError OptionLayer :=
  match read path with
  | .text t =>
    match read? t with
    | some layer => .ok layer
    | none => .error (.malformed path)
  | _ => .error (.unreadable path)

/-- The layer of a file that need not be there. -/
def loadIfThere (read : Text → Readable) (path : Text) : Except ConfigurationError OptionLayer :=
  match read path with
  | .missing => .ok {}
  | _ => load read path

end OptionLayer

namespace Options

/-- The files that options may come from. -/
def candidates (user : UserPaths) : Option Text → List Text
  | some path => [path]
  | none => [user.configuration, localConfiguration]

/-- Loads the options, given what can be read at each path. -/
def load (read : Text → Readable) (user : UserPaths) (named : Option Text) :
    Except ConfigurationError Options :=
  match named with
  | some path => return ({} : Options).withLayer (← OptionLayer.load read path)
  | none => do
    let ofUser ← OptionLayer.loadIfThere read user.configuration
    let ofProject ← OptionLayer.loadIfThere read localConfiguration
    return (({} : Options).withLayer ofUser).withLayer ofProject

/-- The directory that dictionaries are loaded from. -/
def dictionaries (o : Options) (user : UserPaths) : Text :=
  o.dictionaryDir.getD user.dictionaryDir

end Options

end CodeProse
