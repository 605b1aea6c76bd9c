import CryptoAudit.Document

/-!
# TOML values

A TOML document is a table, put together line by line: a header opens a table or a new element of
an array of tables, and a pair of a key and a value is entered in the table that was opened last.
A key may be a path, which leads through tables that are made on the way. How a table came about
decides what may still be added to it: `Toml.open?`, `Toml.openElement?` and `Toml.enter?` give no
result where something would be defined twice.
-/

namespace CryptoAudit

/-- How a table came about. -/
inductive TableKind where
  /-- Written in braces: it is complete. -/
  | closed
  /-- Made because a header leads through it: it may still have a header of its own. -/
  | implied
  /-- Made because the path of a key leads through it. -/
  | dotted
  /-- Opened by a header. -/
  | headed
deriving DecidableEq, Inhabited

/-- A TOML value. -/
inductive Toml where
  | text (s : String)
  | int (n : Int)
  | bool (b : Bool)
  /-- A number with a fraction or an exponent, as it is written. -/
  | real (digits : String)
  /-- A date, a time or both, as it is written. -/
  | moment (s : String)
  | list (items : List Toml)
  | table (kind : TableKind) (entries : List (String × Toml))
  /-- An array of tables with a header each. -/
  | tables (elements : List (List (String × Toml)))
deriving Inhabited

namespace Toml

/-- The entries of a table. -/
abbrev Entries := List (String × Toml)

/-- Changes what stands at a key, or adds it. -/
def alter (key : String) (f : Option Toml → Option Toml) : Entries → Option Entries
  | [] => (f none).map fun v => [(key, v)]
  | (k, v) :: rest =>
    if k = key then (f (some v)).map fun w => (k, w) :: rest
    else (alter key f rest).map ((k, v) :: ·)

/-- Changes the last element of a list. -/
def alterLast {α : Type} (f : α → Option α) : List α → Option (List α)
  | [] => none
  | [a] => (f a).map ([·])
  | a :: as => (alterLast f as).map (a :: ·)

/-- Changes the table to which the path of a header leads. Of an array of tables, the path leads to
the last. -/
def within (edit : Entries → Option Entries) : List String → Entries → Option Entries
  | [], entries => edit entries
  | key :: path, entries =>
    alter key (fun
      | none => (within edit path []).map (.table .implied)
      | some (.table .closed _) => none
      | some (.table kind inner) => (within edit path inner).map (.table kind)
      | some (.tables elements) => (alterLast (within edit path) elements).map .tables
      | some _ => none) entries

/-- Enters a value under a key, which may be a path; `fit` says whether the table may have entries
of its own here. A path of more than one key must end in a table that was made for such a path. -/
def enter? (value : Toml) (fit : Bool) : List String → Entries → Option Entries
  | [], _ => none
  | [key], entries =>
    if fit then alter key (fun | none => some value | some _ => none) entries else none
  | key :: path, entries =>
    alter key (fun
      | none => (enter? value true path []).map (.table .dotted)
      | some (.table .dotted inner) => (enter? value true path inner).map (.table .dotted)
      | some (.table .implied inner) => (enter? value false path inner).map (.table .implied)
      | some (.tables elements) => (alterLast (enter? value false path) elements).map .tables
      | some _ => none) entries

/-- Opens the table at a path. -/
def open? (path : List String) (entries : Entries) : Option Entries :=
  match path.getLast? with
  | none => none
  | some key =>
    within (alter key fun
      | none => some (.table .headed [])
      | some (.table .implied inner) => some (.table .headed inner)
      | some _ => none) path.dropLast entries

/-- Opens a new element of the array of tables at a path. -/
def openElement? (path : List String) (entries : Entries) : Option Entries :=
  match path.getLast? with
  | none => none
  | some key =>
    within (alter key fun
      | none => some (.tables [[]])
      | some (.tables elements) => some (.tables (elements ++ [[]]))
      | some _ => none) path.dropLast entries

/-- The value is an empty table or array. -/
def isEmpty : Toml → Bool
  | .table _ [] | .list [] => true
  | _ => false

/-- Records may be written as tables or as arrays; of an array, as many elements are taken as there
are fields. A moment is a record with a single member, of a
name that no field has. An alternative without data is its name, or a table with its name and
nothing in it. -/
instance : Document Toml where
  text? | .text s => some s | _ => none
  int? | .int n => some n | _ => none
  bool? | .bool b => some b | _ => none
  given? v := some (some v)
  items?
    | .list vs => some vs
    | .tables es => some (es.map (.table .headed))
    | _ => none
  members?
    | .table _ entries => some entries
    | .moment s => some [("$moment", .text s)]
    | _ => none
  positions?
    | count, .list vs => some (vs.take count)
    | count, .tables es => some ((es.take count).map (.table .headed))
    | _, _ => none
  name?
    | .text s => some s
    | .table _ [(name, data)] => if data.isEmpty then some name else none
    | _ => none

end Toml

end CryptoAudit
