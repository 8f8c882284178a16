import Harvest.Json.Parse

/-!
# Reading records

A record is read from an object, or from a list that holds its fields in order. Each field may
occur once, entries with other names are skipped, and what is missing is found out at the end.
-/

namespace Harvest.Json

open Reader

variable {α σ : Type}

/-- Refuse a value that starts with the given byte. -/
def unexpected (b : UInt8) (expected : String) : Reader α :=
  settle <|
    if b = byte '[' then fail (.invalidType "sequence" expected)
    else if b = byte '{' then fail (.invalidType "map" expected)
    else do fail (.invalidType (← scalar b).described expected)

/-- Read a string. -/
def string : Reader String := do
  let b ← startOfValue
  if b = byte '"' then
    advance
    restOfString
  else unexpected b "a string"

/-- Read a whole number from 0 on; `expected` names what it is. -/
def natural (expected : String) : Reader Nat := do
  let b ← startOfValue
  if startsNumber b then
    match ← number b with
    | .nat n => return n
    | .negative n => settle (fail (.invalidValue (Number.negative n).described expected))
    | other => settle (fail (.invalidType other.described expected))
  else unexpected b expected

/-- Read a value or `null`. -/
def optional (read : Reader α) : Reader (Option α) := do
  if (← peekToken) = some (byte 'n') then
    advance
    restOfWord "ull".toList
    return none
  else some <$> read

/-- Read a list; `element` is told how many more brackets may be open. -/
def listOf (depth : Nat) (element : Nat → Reader α) : Reader (List α) := do
  let b ← startOfValue
  let rounds := (← left).length + 1
  if b = byte '[' then settle (list depth fun depth ↦ elements (element depth) rounds true)
  else unexpected b "a sequence"

/-- A field of a record that is being read into `σ`. -/
structure Slot (σ : Type) where
  name : String
  /-- Read the field, given how many more brackets may be open. -/
  read : Nat → Reader (σ → σ)
  isSet : σ → Bool
  /-- Whether a list may end before the field. -/
  mayMiss : Bool

/-- A record: its name in messages, its fields in order, and what makes it of them. -/
structure Shape (σ α : Type) where
  name : String
  fields : List (Slot σ)
  start : σ
  finish : σ → Except Problem α

/-- What messages call a record. -/
def Shape.described (s : Shape σ α) : String := "struct " ++ s.name

/-- What messages call a record that is read from a list. -/
def Shape.describedAsList (s : Shape σ α) : String :=
  let count := s.fields.length
  s!"{s.described} with {count} element" ++ (if count = 1 then "" else "s")

/-- Make the record of the fields that were read. -/
def Shape.finished (s : Shape σ α) (state : σ) : Reader α :=
  match s.finish state with
  | .ok a => pure a
  | .error problem => fail problem

/-- Read the value of one entry of a record. -/
def Shape.entry (s : Shape σ α) (depth : Nat) (name : String) (state : σ) : Reader σ :=
  match s.fields.find? (·.name == name) with
  | some field =>
    if field.isSet state then fail (.duplicateField name)
    else do
      colon
      let assign ← field.read depth
      return assign state
  | none => do
    colon
    skip
    return state

/-- Read the fields of a record from the elements of a list. -/
def Shape.fieldsInOrder (s : Shape σ α) (depth : Nat) :
    List (Slot σ) → Nat → Bool → σ → Reader σ
  | [], _, _, state => pure state
  | field :: rest, index, first, state => do
    if ← hasElement first then
      let assign ← field.read depth
      s.fieldsInOrder depth rest (index + 1) false (assign state)
    else if field.mayMiss then s.fieldsInOrder depth rest (index + 1) first state
    else fail (.invalidLength index s.describedAsList)

/-- Read a record. -/
def Shape.read (s : Shape σ α) (depth : Nat) : Reader α := do
  let b ← startOfValue
  let rounds := (← left).length + 1
  if b = byte '[' then
    settle <| list depth fun depth ↦ do
      s.finished (← s.fieldsInOrder depth s.fields 0 true s.start)
  else if b = byte '{' then
    settle <| object depth fun depth ↦ do
      s.finished (← entries (s.entry depth) rounds true s.start)
  else unexpected b s.described

/-- The value of a field that has to be there. -/
def require (name : String) : Option α → Except Problem α
  | some a => .ok a
  | none => .error (.missingField name)

end Harvest.Json
