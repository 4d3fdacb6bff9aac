/-
# Colours on a terminal
-/
import CodeProse.Text.Search

namespace CodeProse.Output

/-- How a text is shown: attributes and colours by their numbers. -/
inductive Look where
  | good
  | bad
  | fileName
  | place
  | faint
  | fixText
  | info
  | warning
  | error
  deriving DecidableEq, Repr, Inhabited

/-- The numbers of a look: bold 1, faint 2, underlined 4, then the colour. -/
def Look.codes : Look → Text
  | good => "1;32".toList
  | bad | error => "1;31".toList
  | fileName => "1;4".toList
  | place => "1;34".toList
  | faint => "2".toList
  | fixText => "32".toList
  | info => "36".toList
  | warning => "33".toList

/-- The sequence that switches to a look. -/
def Look.start (look : Look) : Text :=
  '\x1b' :: '[' :: look.codes ++ ['m']

/-- The sequence that switches back. -/
def reset : Text := "\x1b[0m".toList

/-- Puts `new` after every occurrence of `pattern`. The fuel bounds their number. -/
def afterEach (pattern new : Text) : Nat → Text → Text
  | 0, t => t
  | fuel + 1, t =>
    match Text.splitFirst? pattern t with
    | some (before, rest) => before ++ pattern ++ new ++ afterEach pattern new fuel rest
    | none => t

/-- A text in a look, if colours are on. Where the text itself switches back, the look is switched to
again. -/
def paint (color : Bool) (look : Look) (t : Text) : Text :=
  if color then look.start ++ afterEach reset look.start t.length t ++ reset else t

/-- Whether output is coloured, given three variables of the environment: one that forces colours, one
that forbids them, and one that asks for them on a terminal. The text `0` stands for no. -/
def usesColor (forced forbidden wanted : Option Text) (isTerminal : Bool) : Bool :=
  forced.any (· != ['0']) || (forbidden.isNone && isTerminal && wanted.all (· != ['0']))

end CodeProse.Output
