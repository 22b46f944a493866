/-!
# TOML items

A TOML document is a tree of tables. A table can be written down in several places, and what may be
added to it later depends on how it came about, so each table keeps its `Origin`.
-/

namespace MeteredSandbox.Toml

/-- How a table came about. -/
inductive Origin where
  /-- It has a header of its own, or is the document. -/
  | header
  /-- The header of a table inside it mentions it. -/
  | implied
  /-- A dotted key leads into it. -/
  | dotted
  /-- It is written in braces, and complete. -/
  | closed
  deriving DecidableEq

/-- What a key stands for. Floating-point numbers and dates carry no value, since nothing is made of
them. -/
inductive Item where
  | text (content : String)
  | integer (value : Int)
  | float
  | boolean (value : Bool)
  | date
  | list (items : List Item)
  | table (origin : Origin) (entries : List (String × Item))
  /-- Tables under one header in double brackets, the last first. -/
  | tables (elements : List (List (String × Item)))

/-- The entries of a table, in the order in which their keys came up. -/
abbrev Entries := List (String × Item)

/-- A key with the keys that lead to its table. -/
structure Key where
  path : List String
  last : String
  deriving DecidableEq

namespace Entries

/-- Changes what a key stands for, if `change` allows it. -/
def alter (key : String) (change : Option Item → Option Item) : Entries → Option Entries
  | [] => do
    let item ← change none
    return [(key, item)]
  | (k, item) :: rest =>
    if k = key then do
      let item ← change (some item)
      return (k, item) :: rest
    else do
      let rest ← alter key change rest
      return (k, item) :: rest

/-- Whether a path that creates tables of origin `created` may go through one of origin `origin`.
Nothing goes into a table in braces, and dotted keys do not go into a table with a header. -/
def mayEnter (created origin : Origin) : Bool :=
  match created, origin with
  | _, .closed => false
  | .dotted, .header => false
  | _, _ => true

/-- Changes the table at the end of a path, which is created where there is none. A path goes
through the last of several tables under one header. -/
def within (created : Origin) (change : Origin → Entries → Option Entries) :
    List String → Origin → Entries → Option Entries
  | [], origin, entries => change origin entries
  | key :: path, _, entries =>
    entries.alter key fun
      | none => do
        let inner ← within created change path created []
        return .table created inner
      | some (.table origin inner) => do
        guard (mayEnter created origin)
        let inner ← within created change path origin inner
        return .table origin inner
      | some (.tables (last :: earlier)) => do
        let last ← within created change path .header last
        return .tables (last :: earlier)
      | some _ => none

/-- Adds a key that is not there yet. A dotted key leads only to a table that dotted keys made. -/
def addPair (key : Key) (value : Item) (origin : Origin) (entries : Entries) : Option Entries :=
  entries.within .dotted (fun origin entries => do
    guard (key.path = [] ∨ origin = .dotted)
    entries.alter key.last fun
      | none => some value
      | some _ => none) key.path origin

/-- Adds a table with a header. Only one that was implied so far may be there already. -/
def addTable (key : Key) (entries : Entries) : Option Entries :=
  entries.within .implied (fun _ entries =>
    entries.alter key.last fun
      | none => some (.table .header [])
      | some (.table .implied inner) => some (.table .header inner)
      | some _ => none) key.path .header

/-- Adds one more table under a header in double brackets. -/
def addElement (key : Key) (entries : Entries) : Option Entries :=
  entries.within .implied (fun _ entries =>
    entries.alter key.last fun
      | none => some (.tables [[]])
      | some (.tables elements) => some (.tables ([] :: elements))
      | some _ => none) key.path .header

end Entries

end MeteredSandbox.Toml
