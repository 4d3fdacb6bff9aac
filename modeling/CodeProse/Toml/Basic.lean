/-
# TOML values and documents

A document is a row of statements: headers that open a table, and entries that are put into the
table opened last. How a table came about decides what may still be added to it, so each table says
how it did.

* `Toml.put?` puts an entry into a table, `Toml.within?` changes a table below another.
* `Toml.table?` is the table that the statements of a document make, unless one defines anew what
  another has defined.
-/
import CodeProse.Text.Search

namespace CodeProse

/-- How a table came about. -/
inductive TableForm where
  /-- By a header of its own. -/
  | headed
  /-- On the way to the table of another header. -/
  | passed
  /-- By a key with dots. -/
  | dotted
  /-- In braces: it is complete. -/
  | braced
  deriving DecidableEq, Repr, Inhabited

/-- A TOML value. -/
inductive Toml where
  | string (s : Text)
  | integer (n : Int)
  | float (x : Float)
  | boolean (b : Bool)
  /-- A date, a time, or both, as written. -/
  | moment (text : Text)
  /-- An array in brackets. -/
  | array (items : List Toml)
  | table (form : TableForm) (entries : List (Text × Toml))
  /-- The tables of an array whose items are opened by headers. -/
  | tables (items : List (List (Text × Toml)))
  deriving Repr, Inhabited

namespace Toml

/-- The entries of a table, in the order in which they were put. -/
abbrev Entries := List (Text × Toml)

/-- Gives a key that a table has another value. -/
def replace (key : Text) (value : Toml) (entries : Entries) : Entries :=
  entries.map fun e => if e.1 = key then (key, value) else e

/-- Puts an entry into a table. The names before the dots of its key lead through tables, the last of
which must have come about by such a key, and no key is put twice. -/
def put? (key : Text) (value : Toml) : List Text → Entries → Option Entries
  | [], entries =>
    if (entries.lookup key).isSome then none else some (entries ++ [(key, value)])
  | name :: names, entries =>
    match entries.lookup name with
    | none => (put? key value names []).map fun inner => entries ++ [(name, .table .dotted inner)]
    | some (.table form inner) =>
      if form = .dotted ∨ (form = .passed ∧ names ≠ []) then
        (put? key value names inner).map fun inner => replace name (.table form inner) entries
      else none
    | some (.tables items) =>
      match items.reverse with
      | last :: earlier =>
        if names = [] then none
        else
          (put? key value names last).map fun last =>
            replace name (.tables (earlier.reverse ++ [last])) entries
      | [] => none
    | some _ => none

/-- Changes the table that names lead to. Missing tables on the way come about; of the tables of an
array the last is meant. -/
def within? (change : Entries → Option Entries) : List Text → Entries → Option Entries
  | [], entries => change entries
  | name :: names, entries =>
    match entries.lookup name with
    | none => (within? change names []).map fun inner => entries ++ [(name, .table .passed inner)]
    | some (.table form inner) =>
      if form = .braced then none
      else (within? change names inner).map fun inner => replace name (.table form inner) entries
    | some (.tables items) =>
      match items.reverse with
      | last :: earlier =>
        (within? change names last).map fun last =>
          replace name (.tables (earlier.reverse ++ [last])) entries
      | [] => none
    | some _ => none

/-- Opens a table by its header. Only a table that was passed on the way to another may be there. -/
def openTable? (name : Text) (entries : Entries) : Option Entries :=
  match entries.lookup name with
  | none => some (entries ++ [(name, .table .headed [])])
  | some (.table .passed inner) => some (replace name (.table .headed inner) entries)
  | some _ => none

/-- Opens the next table of an array by its header. -/
def openItem? (name : Text) (entries : Entries) : Option Entries :=
  match entries.lookup name with
  | none => some (entries ++ [(name, .tables [[]])])
  | some (.tables items) => some (replace name (.tables (items ++ [[]])) entries)
  | some _ => none

/-- One statement of a document. -/
inductive Statement where
  /-- Opens the table that is called `name` below the table that `names` lead to. -/
  | header (names : List Text) (name : Text)
  /-- Opens the next table of an array. -/
  | itemHeader (names : List Text) (name : Text)
  | entry (names : List Text) (key : Text) (value : Toml)
  deriving Repr, Inhabited

/-- Carries out statements on a table; `current` leads to the table opened last. -/
def run? (current : List Text) : List Statement → Entries → Option Entries
  | [], entries => some entries
  | .header names name :: rest, entries =>
    (within? (openTable? name) names entries).bind (run? (names ++ [name]) rest)
  | .itemHeader names name :: rest, entries =>
    (within? (openItem? name) names entries).bind (run? (names ++ [name]) rest)
  | .entry names key value :: rest, entries =>
    (within? (put? key value names) current entries).bind (run? current rest)

/-- The table that statements make. -/
def table? (statements : List Statement) : Option Entries :=
  run? [] statements []

/-- The table in braces that holds the given entries. -/
def braced? (items : List (List Text × Text × Toml)) : Option Toml :=
  (items.foldlM (fun entries item => put? item.2.1 item.2.2 item.1 entries) []).map
    (.table .braced)

end Toml

end CodeProse
