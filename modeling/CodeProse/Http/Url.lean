/-
# Addresses

Where a request goes: the host and the socket of an address, and the path with the query that is
asked for. Only `http` and `https` addresses can be used.
-/
import CodeProse.Http.Percent
import CodeProse.Text.Digit
import CodeProse.Text.Search

namespace CodeProse.Http

/-- A usable address. -/
structure Url where
  secure : Bool
  host : Text
  /-- The number of the socket at the host. -/
  socket : Nat
  /-- The path and the query. -/
  target : Text
  deriving DecidableEq, Repr, Inhabited

/-! ## Parts of an address -/

/-- Drops control characters and blanks at both ends, and line breaks and tabs anywhere. -/
def tidy (t : Text) : Text :=
  let isEdge (c : Char) : Bool := c.toNat ≤ 0x20
  let inner := ((t.dropWhile isEdge).reverse.dropWhile isEdge).reverse
  inner.filter fun c => !(c == '\t' || c == '\n' || c == '\r')

/-- The scheme in small letters, and what follows its colon. -/
def scheme? (t : Text) : Option (Text × Text) := do
  let (name, rest) ← Text.splitFirst? [':'] t
  match name with
  | c :: more =>
    if c.isAlpha && more.all fun d => d.isAlphanum || d == '+' || d == '-' || d == '.' then
      some (name.map Char.toLower, rest)
    else none
  | [] => none

/-- Whether `c` separates the parts of a path; a backslash does so as well. -/
def isSlash (c : Char) : Bool :=
  c == '/' || c == '\\'

/-- Whether `c` ends the host and the socket. -/
def endsAuthority (c : Char) : Bool :=
  isSlash c || c == '?' || c == '#'

/-- What follows the last at sign. -/
def dropUser (t : Text) : Text :=
  ((Text.splitOn '@' t).getLast?).getD t

/-- Whether `c` may not stand in the name of a host. -/
def isForbiddenInHost (c : Char) : Bool :=
  c.toNat ≤ 0x20 || c.toNat == 0x7F || "#/:<>?@[\\]^|%".toList.contains c

/-- The name or number of a host in small letters; it may not be empty. -/
def host? (t : Text) : Option Text :=
  match t with
  | [] => none
  | '[' :: rest =>
    let inner := rest.dropLast
    if rest.getLast? == some ']' && inner.contains ':'
        && inner.all (fun c => Text.isHexDigit c || c == ':' || c == '.') then some t
    else none
  | t => if t.any isForbiddenInHost then none else some (t.map Char.toLower)

/-- The host and the socket; without a number the scheme decides it. -/
def authority? (secure : Bool) (t : Text) : Option (Text × Nat) := do
  let t := dropUser t
  let inBrackets := if t.head? = some '[' then (t.takeWhile (· != ']')).length else 0
  let name := t.take inBrackets ++ (t.drop inBrackets).takeWhile (· != ':')
  let socket := (t.drop name.length).drop 1
  let host ← host? name
  if socket.isEmpty then some (host, if secure then 443 else 80)
  else
    let number ← Text.numeral? 10 socket
    if number < 65536 then some (host, number) else none

/-! ## Path and query -/

/-- Characters that are encoded in a path. -/
def encodesInPath (c : Char) : Bool :=
  c.toNat ≤ 0x20 || 0x7F ≤ c.toNat || "\"#<>?`\x7b\x7d".toList.contains c

/-- Characters that are encoded in a query. -/
def encodesInQuery (c : Char) : Bool :=
  c.toNat ≤ 0x20 || 0x7F ≤ c.toNat || "\"#<>'".toList.contains c

/-- How many dots a segment of a path stands for, if it is one or two dots, encoded or not. -/
def dots? : Text → Option Nat
  | ['.'] => some 1
  | ['.', '.'] => some 2
  | '%' :: '2' :: e :: rest =>
    if e == 'e' || e == 'E' then
      match rest with
      | [] => some 1
      | ['.'] => some 2
      | ['%', '2', f] => if f == 'e' || f == 'E' then some 2 else none
      | _ => none
    else none
  | ['.', '%', '2', e] => if e == 'e' || e == 'E' then some 2 else none
  | _ => none

/-- Follows the segments of a path: a dot stays where it is, two dots go up. The segments so far are
given last one first. -/
def followSegments (reversed : List Text) : List Text → List Text
  | [] => reversed.reverse
  | segment :: rest =>
    match dots? segment with
    | some 1 => followSegments (if rest.isEmpty then [] :: reversed else reversed) rest
    | some _ =>
      let up := reversed.drop 1
      followSegments (if rest.isEmpty then [] :: up else up) rest
    | none => followSegments (percentEncode encodesInPath segment :: reversed) rest

/-- The path of an address, which starts with a slash. -/
def path (t : Text) : Text :=
  let plain := t.map fun c => if isSlash c then '/' else c
  let segments := followSegments [] (Text.splitOn '/' (plain.drop 1))
  segments.flatMap fun s => '/' :: s

/-- The path and query of what follows the host; a fragment is dropped. -/
def requestTarget (t : Text) : Text :=
  let t := t.takeWhile (· != '#')
  let query := t.dropWhile (· != '?')
  path (t.takeWhile (· != '?'))
    ++ (match query with
        | _ :: q => '?' :: percentEncode encodesInQuery q
        | [] => [])

/-- Reads an address; `none` if no request can be sent to it. -/
def Url.read? (t : Text) : Option Url := do
  let (name, rest) ← scheme? (tidy t)
  let secure := name == "https".toList
  if !secure && name != "http".toList then none
  else
    let rest := rest.dropWhile isSlash
    let (host, socket) ← authority? secure (rest.takeWhile (!endsAuthority ·))
    some ⟨secure, host, socket, requestTarget (rest.dropWhile (!endsAuthority ·))⟩

end CodeProse.Http
