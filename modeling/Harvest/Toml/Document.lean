import Harvest.Toml.Scalar
import Harvest.Toml.Table

/-!
# TOML documents

Values, and the lines of a document that define them. A document stands for the object of its
tables.
-/

namespace Harvest.Toml

open Json (Value)

/-- How deep arrays and inline tables may be nested. -/
def depthLimit : Nat := 80

/-- Read elements up to the bracket that closes an array; each round reads at least one
character. -/
def elements (element : Reader Value) : Nat → Reader (List Value)
  | 0 => failure
  | rounds + 1 => do
    filler
    if ← accept ']' then return []
    else
      let head ← element
      filler
      if ← accept ',' then return head :: (← elements element rounds)
      else
        expect ']'
        return [head]

/-- Read pairs up to the brace that closes an inline table; each round reads at least one
character. -/
def pairs (element : Reader Value) : Nat → Entries → Reader Entries
  | 0, _ => failure
  | rounds + 1, entries => do
    let name ← key
    expect '='
    spaces
    let v ← element
    spaces
    let entries ← defineKey name v entries
    if ← accept ',' then pairs element rounds entries
    else
      expect '\x7d'
      return entries

/-- Read a value that starts with a letter. -/
def word : Reader Value := do
  match ← get with
  | 't' :: _ =>
    expectAll "true".toList
    return .bool true
  | 'f' :: _ =>
    expectAll "false".toList
    return .bool false
  | cs =>
    let (v, rest) ← specialFloat cs
    set rest
    return v

/-- Read a value. -/
def value : Nat → Reader Value
  | 0 => failure
  | depth + 1 => do
    let cs ← get
    match cs with
    | [] => failure
    | c :: rest =>
      if c = '"' ∨ c = '\'' then return .string (← string)
      else if c = '[' then
        set rest
        return .array (← elements (value depth) (rest.length + 1))
      else if c = '\x7b' then
        set rest
        spaces
        if ← accept '\x7d' then return .object []
        else return .object (entriesValue (← pairs (value depth) (rest.length + 1) []))
      else if c.isDigit || c == '+' || c == '-' then
        let (v, rest) ← numeric cs
        set rest
        return v
      else word

/-- The table of a document that lines are added to. -/
structure Document where
  root : Entries
  /-- The path of the header that was read last. -/
  path : List String

/-- Read a header and open its table. -/
def header (d : Document) : Reader Document := do
  let item ← accept '['
  let path ← key
  expect ']'
  if item then expect ']'
  match path.getLast? with
  | none => failure
  | some name =>
    let root ← (if item then openItem else openTable) path.dropLast name d.root
    return ⟨root, path⟩

/-- Read a definition and add it to the open table. -/
def definition (d : Document) : Reader Document := do
  let name ← key
  expect '='
  spaces
  let v ← value depthLimit
  let root ← withinHeader (defineKey name v) d.path d.root
  return { d with root }

/-- Read what a line holds besides blanks and comments. -/
def line (d : Document) : Reader Document := do
  spaces
  match ← get with
  | [] => return d
  | c :: _ =>
    if c = '#' ∨ c = '\n' ∨ c = '\r' then return d
    else if ← accept '[' then header d
    else definition d

/-- Read the lines of a document; each round reads at least a line break. -/
def lines : Nat → Document → Reader Document
  | 0, _ => failure
  | rounds + 1, d => do
    let d ← line d
    spaces
    comment
    match ← get with
    | [] => return d
    | cs =>
      let rest ← afterBreak? cs
      set rest
      lines rounds d

/-- A text without the byte order mark at its start. -/
def dropMark : List Char → List Char
  | '\uFEFF' :: rest => rest
  | cs => cs

/-- Read a document. -/
def parse (text : String) : Option Value := do
  let cs := dropMark text.toList
  let (d, _) ← (lines (cs.length + 1) ⟨[], []⟩).run cs
  return .object (entriesValue d.root)

end Harvest.Toml
