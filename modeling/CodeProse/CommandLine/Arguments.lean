/-
# Arguments of the command

Switches stand alone; settings take a value, which follows in the next argument or is attached to the
name. Switches of one letter may share a dash. Everything else, and everything after two dashes, is a
path.

* `Arguments.read` reads the arguments of a command.
* `Arguments.apply` puts what they choose over the options from files.
-/
import CodeProse.Output.Listing
import CodeProse.Settings
import CodeProse.Text.Digit

namespace CodeProse.CommandLine

/-- Names that stand alone. -/
inductive Switch where
  | fix
  | noColor
  | noFail
  | sentences
  | debug
  | help
  | version
  deriving DecidableEq, Repr, Inhabited

/-- Names that take a value. -/
inductive Setting where
  | language
  | dictionaryDir
  | format
  | configuration
  | grammarUrl
  | skipWord
  | skipIfMatch
  | skipWordIfMatch
  | minLength
  | completion
  deriving DecidableEq, Repr, Inhabited

/-- What a name stands for. -/
inductive Flag where
  | switch (s : Switch)
  | setting (s : Setting)
  deriving DecidableEq, Repr, Inhabited

/-- The names after two dashes. -/
def longNames : List (String × Flag) :=
  [("fix", .switch .fix), ("no-color", .switch .noColor), ("no-fail", .switch .noFail),
    ("sentences", .switch .sentences), ("debug", .switch .debug), ("help", .switch .help),
    ("version", .switch .version), ("language", .setting .language),
    ("lang-dir", .setting .dictionaryDir), ("format", .setting .format),
    ("config", .setting .configuration), ("grammar-url", .setting .grammarUrl),
    ("skip-word", .setting .skipWord), ("skip-if-match", .setting .skipIfMatch),
    ("skip-word-if-match", .setting .skipWordIfMatch), ("min-length", .setting .minLength),
    ("completion", .setting .completion)]

/-- The names after one dash. -/
def shortNames : List (Char × Flag) :=
  [('f', .switch .fix), ('l', .setting .language), ('o', .setting .format),
    ('c', .setting .configuration), ('h', .switch .help), ('V', .switch .version)]

/-- What a long name stands for. -/
def longFlag? (name : Text) : Option Flag :=
  (longNames.map fun n => (n.1.toList, n.2)).lookup name

/-- Why there is nothing to run. -/
inductive Stop where
  /-- The arguments make no sense. -/
  | misuse
  | help
  | version
  deriving DecidableEq, Repr, Inhabited

/-- What the arguments choose. -/
structure Arguments where
  paths : List Text := []
  fix : Bool := false
  noColor : Bool := false
  noFail : Bool := false
  sentences : Bool := false
  debug : Bool := false
  language : Option Text := none
  dictionaryDir : Option Text := none
  format : Option Output.Format := none
  configuration : Option Text := none
  grammarUrl : Option Text := none
  skipWords : List Text := []
  skipIfMatch : List Text := []
  skipWordIfMatch : List Text := []
  minLength : Option Nat := none
  /-- The shell that a completion script is wanted for. -/
  completion : Option Text := none
  deriving Repr, Inhabited

namespace Arguments

/-! ## Values -/

/-- A switch, or a setting that holds one value, may not be given twice. -/
def once {α : Type} (present : Bool) (new : α) : Except Stop α :=
  if present then .error .misuse else .ok new

/-- A value that makes sense. -/
def valid {α : Type} : Option α → Except Stop α
  | some a => .ok a
  | none => .error .misuse

/-- The path that a value names; it may not be empty. -/
def path? (value : Text) : Option Text :=
  if value.isEmpty then none else some value

/-- The form of a listing. -/
def format? (value : Text) : Option Output.Format :=
  [("text".toList, Output.Format.text), ("json".toList, .json)].lookup value

/-- A length: decimal digits, perhaps after a plus, of a number of at most 64 bits. -/
def length? (value : Text) : Option Nat :=
  let digits := match value with
    | '+' :: t => t
    | t => t
  (Text.numeral? 10 digits).filter (· < 0x10000000000000000)

/-- A shell that completion scripts exist for. -/
def shell? (value : Text) : Option Text :=
  let shells := ["bash", "elvish", "fish", "powershell", "zsh"].map String.toList
  if shells.contains value then some value else none

/-- Turns a switch on. -/
def switchOn (a : Arguments) : Switch → Except Stop Arguments
  | .fix => once a.fix { a with fix := true }
  | .noColor => once a.noColor { a with noColor := true }
  | .noFail => once a.noFail { a with noFail := true }
  | .sentences => once a.sentences { a with sentences := true }
  | .debug => once a.debug { a with debug := true }
  | .help => .error .help
  | .version => .error .version

/-- Gives a setting a value. Words and patterns to skip add up. -/
def set (a : Arguments) (value : Text) : Setting → Except Stop Arguments
  | .language => once a.language.isSome { a with language := some value }
  | .dictionaryDir => do
    once a.dictionaryDir.isSome { a with dictionaryDir := some (← valid (path? value)) }
  | .format => do once a.format.isSome { a with format := some (← valid (format? value)) }
  | .configuration => do
    once a.configuration.isSome { a with configuration := some (← valid (path? value)) }
  | .grammarUrl => once a.grammarUrl.isSome { a with grammarUrl := some value }
  | .skipWord => .ok { a with skipWords := a.skipWords ++ [value] }
  | .skipIfMatch => .ok { a with skipIfMatch := a.skipIfMatch ++ [value] }
  | .skipWordIfMatch => .ok { a with skipWordIfMatch := a.skipWordIfMatch ++ [value] }
  | .minLength => do once a.minLength.isSome { a with minLength := some (← valid (length? value)) }
  | .completion => do once a.completion.isSome { a with completion := some (← valid (shell? value)) }

/-- Adds a path. -/
def addPath (a : Arguments) (value : Text) : Except Stop Arguments := do
  return { a with paths := a.paths ++ [← valid (path? value)] }

/-! ## Reading -/

/-- Reads names of one letter after a dash. Also says which setting still waits for its value. -/
def readShort (a : Arguments) : Text → Except Stop (Arguments × Option Setting)
  | [] => .ok (a, none)
  | c :: t =>
    match shortNames.lookup c with
    | none => .error .misuse
    | some (.switch s) => (a.switchOn s).bind (readShort · t)
    | some (.setting s) =>
      match t with
      | [] => .ok (a, some s)
      | '=' :: value => (a.set value s).map (·, none)
      | value => (a.set value s).map (·, none)

/-- Reads a long name after its dashes, perhaps with a value after an equals sign. -/
def readLong (a : Arguments) (t : Text) : Except Stop (Arguments × Option Setting) :=
  let value := match t.dropWhile (· != '=') with
    | '=' :: value => some value
    | _ => none
  match longFlag? (t.takeWhile (· != '=')), value with
  | some (.switch s), none => (a.switchOn s).map (·, none)
  | some (.setting s), some value => (a.set value s).map (·, none)
  | some (.setting s), none => .ok (a, some s)
  | _, _ => .error .misuse

/-- Whether an argument is one or more names. -/
def isNamed : Text → Bool
  | '-' :: _ :: _ => true
  | _ => false

/-- Reads the remaining arguments; `waiting` is the setting that the first of them is the value
of. -/
def readFrom (a : Arguments) (waiting : Option Setting) : List Text → Except Stop Arguments
  | [] => if waiting.isSome then .error .misuse else .ok a
  | arg :: rest =>
    match waiting with
    | some s => if isNamed arg then .error .misuse else (a.set arg s).bind (readFrom · none rest)
    | none =>
      match arg with
      | ['-', '-'] => rest.foldlM addPath a
      | '-' :: '-' :: t => (a.readLong t).bind fun r => readFrom r.1 r.2 rest
      | '-' :: c :: t => (a.readShort (c :: t)).bind fun r => readFrom r.1 r.2 rest
      | path => (a.addPath path).bind (readFrom · none rest)

/-- Reads the arguments of a command. -/
def read (args : List Text) : Except Stop Arguments :=
  readFrom {} none args

/-! ## Options -/

/-- Options with what the arguments choose over them: single values take the place of what was
there, words and patterns to skip are added, and sentences and debugging can only be turned on. -/
def apply (a : Arguments) (o : Options) : Options :=
  { o with
    language := a.language.getD o.language
    dictionaryDir := a.dictionaryDir.or o.dictionaryDir
    sentences := a.sentences || o.sentences
    grammarUrl := a.grammarUrl.or o.grammarUrl
    minLength := a.minLength.getD o.minLength
    debug := a.debug || o.debug
    skipWords := o.skipWords ++ a.skipWords
    skipIfMatch := o.skipIfMatch ++ a.skipIfMatch
    skipWordIfMatch := o.skipWordIfMatch ++ a.skipWordIfMatch }

end Arguments

end CodeProse.CommandLine
