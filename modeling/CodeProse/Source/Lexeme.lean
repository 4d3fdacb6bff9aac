/-
# Lexemes

How far the delimited pieces of a source file reach: strings, templates and words. Each reader gets
the text after the opening delimiter.
-/
import CodeProse.Text.Search
import CodeProse.Unicode.Property

namespace CodeProse.Source

open Unicode

/-! ## Words -/

/-- Words that are part of the language. -/
def keywords : List Text :=
  [
    "abstract", "as", "async", "await", "break", "case", "catch", "class", "const", "continue",
    "debugger", "declare", "default", "delete", "do", "else", "enum", "export", "extends", "false",
    "finally", "for", "from", "function", "get", "if", "implements", "import", "in", "instanceof",
    "interface", "keyof", "let", "new", "null", "of", "private", "protected", "public", "readonly",
    "return", "set", "static", "super", "switch", "this", "throw", "true", "try", "type", "typeof",
    "undefined", "var", "void", "while", "with", "yield"
  ].map String.toList

/-- Whether a word may start with `c`. -/
def startsWord (c : Char) : Bool :=
  isAlphabetic c || c == '_' || c == '$'

/-- Whether a word may go on with `c`. -/
def continuesWord (c : Char) : Bool :=
  isAlphanumeric c || c == '_' || c == '$'

/-- Whether a number may go on with `c`. -/
def continuesNumber (c : Char) : Bool :=
  c.isAlphanum || c == '.' || c == '_'

/-! ## Strings -/

/-- The body of a string, and whether a closing character follows it: the quote or the end of the
line. A backslash takes the next character with it. -/
def stringBody (quote : Char) : Text → Text × Bool
  | [] => ([], false)
  | c :: t =>
    if c = '\\' then
      match t with
      | [] => ([c], false)
      | d :: t =>
        let r := stringBody quote t
        (c :: d :: r.1, r.2)
    else if c = quote || c = '\n' then ([], true)
    else
      let r := stringBody quote t
      (c :: r.1, r.2)

/-! ## Templates -/

/-- What is known of a template after its opening backtick. -/
structure TemplateScan where
  /-- The literal fragments, each with the offset at which it starts. -/
  fragments : List (Nat × Text)
  /-- How many characters the template takes. -/
  taken : Nat
  /-- Whether the closing backtick was found. -/
  closed : Bool
  deriving DecidableEq, Repr, Inhabited

namespace TemplateScan

/-- The scan seen from `n` characters earlier. -/
def after (n : Nat) (s : TemplateScan) : TemplateScan :=
  { s with taken := s.taken + n }

/-- Puts a fragment in front. -/
def withFragment (start : Nat) (reversed : Text) (s : TemplateScan) : TemplateScan :=
  { s with fragments := (start, reversed.reverse) :: s.fragments }

end TemplateScan

/-- Reads a template from `offset` on. With `depth` zero it reads a literal fragment that started at
`start` and whose characters so far are given last one first; otherwise it reads a substitution and
`depth` braces are open. -/
def templateFrom (depth start offset : Nat) (reversed : Text) : Text → TemplateScan
  | [] => ⟨if depth = 0 then [(start, reversed.reverse)] else [], 0, false⟩
  | c :: t =>
    let next := offset + c.utf8Size
    match depth with
    | d + 1 =>
      let depth := if c = '{' then d + 2 else if c = '}' then d else d + 1
      (templateFrom depth next next [] t).after 1
    | 0 =>
      if c = '`' then ⟨[(start, reversed.reverse)], 1, true⟩
      else
        match t with
        | [] => ⟨[(start, (c :: reversed).reverse)], 1, false⟩
        | e :: t' =>
          if c = '\\' then
            (templateFrom 0 start (next + e.utf8Size) (e :: c :: reversed) t').after 2
          else if c = '$' ∧ e = '{' then
            ((templateFrom 1 start (next + 1) [] t').after 2).withFragment start reversed
          else (templateFrom 0 start next (c :: reversed) (e :: t')).after 1

/-- Reads a template whose first character after the backtick stands at `start`. -/
def templateScan (start : Nat) (t : Text) : TemplateScan :=
  templateFrom 0 start start [] t

end CodeProse.Source
