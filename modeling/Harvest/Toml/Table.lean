import Harvest.Json.Value

/-!
# TOML tables

A table grows while a document is read. It can be opened once by a header, below a header of a
longer name it exists without having been opened, and a dotted key makes tables that headers cannot
open. Whatever would define something twice is refused.
-/

namespace Harvest.Toml

open Json (Value)

/-- How a table came about. -/
inductive Origin where
  /-- A header opened it, or it is the document itself. -/
  | header
  /-- A header of a longer name needed it. -/
  | implied
  /-- A dotted key needed it. -/
  | dotted
deriving DecidableEq, Repr

/-- What stands under a name. -/
inductive Node where
  | value (v : Value)
  | table (origin : Origin) (entries : List (String × Node))
  | tables (items : List (List (String × Node)))

/-- The entries of a table in order. -/
abbrev Entries := List (String × Node)

/-- Change what stands under a name. -/
def change (name : String) (f : Option Node → Option Node) : Entries → Option Entries
  | [] => (f none).map fun node ↦ [(name, node)]
  | (other, node) :: rest =>
    if other = name then (f (some node)).map fun node ↦ (name, node) :: rest
    else (change name f rest).map ((other, node) :: ·)

/-- Change the last one of some tables. -/
def changeLast (f : Entries → Option Entries) : List Entries → Option (List Entries)
  | [] => none
  | [last] => (f last).map ([·])
  | item :: items => (changeLast f items).map (item :: ·)

/-- Change the table that a header's path leads to. -/
def withinHeader (f : Entries → Option Entries) : List String → Entries → Option Entries
  | [], entries => f entries
  | name :: path, entries =>
    change name (fun
      | none => (withinHeader f path []).map (.table .implied)
      | some (.value _) => none
      | some (.table origin es) => (withinHeader f path es).map (.table origin)
      | some (.tables items) => (changeLast (withinHeader f path) items).map .tables) entries

/-- Open a table below a path. -/
def openTable (path : List String) (name : String) (root : Entries) : Option Entries :=
  withinHeader (change name fun
    | none => some (.table .header [])
    | some (.table .implied es) => some (.table .header es)
    | _ => none) path root

/-- Add an empty table to the tables of a name below a path. -/
def openItem (path : List String) (name : String) (root : Entries) : Option Entries :=
  withinHeader (change name fun
    | none => some (.tables [[]])
    | some (.tables items) => some (.tables (items ++ [[]]))
    | _ => none) path root

/-- Define a name that is not defined yet. -/
def define (name : String) (v : Value) : Entries → Option Entries :=
  change name fun
    | none => some (.value v)
    | some _ => none

/-- Change the table that the path of a dotted key leads to, which has to be the dotted key's
own. -/
def withinDotted (f : Entries → Option Entries) : List String → Entries → Option Entries
  | [], entries => f entries
  | name :: path, entries =>
    change name (fun
      | none => (withinDotted f path []).map (.table .dotted)
      | some (.table .dotted es) => (withinDotted f path es).map (.table .dotted)
      | some (.table .implied es) =>
        if path = [] then none else (withinDotted f path es).map (.table .implied)
      | some (.tables items) =>
        if path = [] then none else (changeLast (withinDotted f path) items).map .tables
      | some _ => none) entries

/-- Define a key with a value in a table. -/
def defineKey (key : List String) (v : Value) (entries : Entries) : Option Entries :=
  match key.getLast? with
  | none => none
  | some name => withinDotted (define name v) key.dropLast entries

mutual

/-- The value of a node. -/
def Node.toValue : Node → Value
  | .value v => v
  | .table _ es => .object (entriesValue es)
  | .tables items => .array (itemsValue items)

/-- The values of entries. -/
def entriesValue : List (String × Node) → List (String × Value)
  | [] => []
  | (name, node) :: rest => (name, node.toValue) :: entriesValue rest

/-- The values of tables. -/
def itemsValue : List (List (String × Node)) → List Value
  | [] => []
  | es :: rest => .object (entriesValue es) :: itemsValue rest

end

end Harvest.Toml
