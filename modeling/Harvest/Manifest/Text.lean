import Harvest.Instant.Parse
import Harvest.Json.Printer
import Harvest.Json.Record
import Harvest.Manifest.Basic

/-!
# Manifests as text

A manifest is kept as a JSON object. A split's outcome is spread over the entries of its record:
`status` names it, and a failure adds `error`.
Design: `SPEC_FULL.md:270–272`.
-/

namespace Harvest.Manifest

open Json (Value Problem Reader Shape Slot)

/-! ## Writing -/

/-- The entries of an outcome. -/
def Outcome.entries : Outcome → List (String × Value)
  | completed => [("status", .string "completed")]
  | failed error => [("status", .string "failed"), ("error", .string error)]
  | interrupted => [("status", .string "interrupted")]

/-- A count as a value. -/
private def count' (n : Nat) : Value := .number (.nat n)

/-- The value of a record. -/
def Record.value (r : Record) : Value :=
  .object <|
    [("index", count' r.index), ("start", count' r.first), ("end", count' r.last),
      ("batch_size", count' r.batch), ("pages", count' r.pages), ("bytes", count' r.bytes)]
    ++ r.outcome.entries

/-- The value of a manifest. -/
def value (m : Manifest) : Value :=
  .object
    [("entity", .string m.entity), ("base_url", .string m.baseUrl),
      ("available", count' m.available), ("splits", .array (m.splits.map Record.value)),
      ("started_at", .string m.started.text), ("finished_at", .string m.finished.text)]

/-- The text of a manifest. -/
def text (m : Manifest) : String := m.value.pretty

/-! ## Reading outcomes -/

/-- The outcomes as `status` names them. -/
inductive Status where
  | completed
  | failed
  | interrupted
deriving DecidableEq, Repr

/-- The names of the outcomes. -/
def statusNames : List String := ["completed", "failed", "interrupted"]

/-- Read the name of an outcome, or its place in the list of names. -/
def Status.ofValue : Value → Except Problem Status
  | .string "completed" => .ok completed
  | .string "failed" => .ok failed
  | .string "interrupted" => .ok interrupted
  | .string name => .error (.unknownVariant name statusNames)
  | .number (.nat 0) => .ok completed
  | .number (.nat 1) => .ok failed
  | .number (.nat 2) => .ok interrupted
  | .number (.nat n) =>
    .error (.invalidValue (Json.Number.nat n).described "variant index 0 <= i < 3")
  | v => .error (.invalidType v.described "variant identifier")

/-- Find `status` among the entries that are no fields of a record; an entry that cannot be one is
noticed before a second one. -/
def statusOf : List (String × Value) → Option Status → Except Problem Status
  | [], none => .error (.missingField "status")
  | [], some status => .ok status
  | (name, v) :: rest, found =>
    if name = "status" then
      match found with
      | some _ => .error (.duplicateField "status")
      | none => do statusOf rest (some (← Status.ofValue v))
    else statusOf rest found

/-- Find the text of a failure. -/
def errorOf : List (String × Value) → Option String → Except Problem String
  | [], none => .error (.missingField "error")
  | [], some error => .ok error
  | (name, v) :: rest, found =>
    if name = "error" then
      match found, v with
      | some _, _ => .error (.duplicateField "error")
      | none, .string error => errorOf rest (some error)
      | none, v => .error (.invalidType v.described "a string")
    else errorOf rest found

/-- The outcome that entries spell out. -/
def Outcome.ofEntries (entries : List (String × Value)) : Except Problem Outcome := do
  match ← statusOf entries none with
  | .completed => return completed
  | .interrupted => return interrupted
  | .failed => return failed (← errorOf (entries.filter (·.1 ≠ "status")) none)

/-! ## Reading records -/

/-- The fields of a record that have been read, and its other entries, the last one first. -/
structure PartialRecord where
  numbers : List (String × Nat)
  others : List (String × Value)

/-- The fields of a record, in order, and what messages call their values. -/
def recordFields : List (String × String) :=
  [("index", "usize"), ("start", "u64"), ("end", "u64"), ("batch_size", "u64"), ("pages", "u64"),
    ("bytes", "u64")]

/-- Read the value of one entry of a record. -/
def readEntry (depth : Nat) (name : String) (r : PartialRecord) : Reader PartialRecord :=
  match recordFields.lookup name with
  | some expected =>
    if (r.numbers.lookup name).isSome then Reader.fail (.duplicateField name)
    else do
      Json.colon
      let n ← Json.natural expected
      return { r with numbers := (name, n) :: r.numbers }
  | none => do
    Json.colon
    let v ← Json.value depth
    return { r with others := (name, v) :: r.others }

/-- The record of the entries that were read. -/
def PartialRecord.finish (r : PartialRecord) : Except Problem Record := do
  let field (name : String) : Except Problem Nat := Json.require name (r.numbers.lookup name)
  let index ← field "index"
  let first ← field "start"
  let last ← field "end"
  let batch ← field "batch_size"
  let pages ← field "pages"
  let bytes ← field "bytes"
  let outcome ← Outcome.ofEntries r.others.reverse
  return { index, first, last, batch, pages, bytes, outcome }

/-- Read a record. It has to be an object. -/
def readRecord (depth : Nat) : Reader Record := do
  let b ← Json.startOfValue
  let rounds := (← Reader.left).length + 1
  if b = Json.byte '\x7b' then
    Reader.settle <| Json.object depth fun depth ↦ do
      let r ← Json.entries (readEntry depth) rounds true ⟨[], []⟩
      match r.finish with
      | .ok record => return record
      | .error problem => Reader.fail problem
  else Json.unexpected b "struct SplitRecord"

/-! ## Reading manifests -/

/-- Read an instant. -/
def readInstant : Reader Instant := do
  let b ← Json.startOfValue
  if b = Json.byte '"' then
    Reader.advance
    match Instant.parse (← Json.restOfString) with
    | .ok instant => return instant
    | .error e => Reader.settle (Reader.fail (.contents e.message))
  else Json.unexpected b "an RFC 3339 formatted date and time string"

/-- The fields of a manifest that have been read. -/
structure Partial where
  entity : Option String
  baseUrl : Option String
  available : Option Nat
  splits : Option (List Record)
  started : Option Instant
  finished : Option Instant

/-- The manifest of the fields that were read. -/
def Partial.finish (p : Partial) : Except Problem Manifest := do
  let entity ← Json.require "entity" p.entity
  let baseUrl ← Json.require "base_url" p.baseUrl
  let available ← Json.require "available" p.available
  let splits ← Json.require "splits" p.splits
  let started ← Json.require "started_at" p.started
  let finished ← Json.require "finished_at" p.finished
  return { entity, baseUrl, available, splits, started, finished }

/-- A field that has to be there. -/
private def field {α : Type} (name : String) (read : Nat → Reader α)
    (get : Partial → Option α) (put : α → Partial → Partial) : Slot Partial where
  name := name
  read depth := put <$> read depth
  isSet p := (get p).isSome
  mayMiss := false

/-- How a manifest is read. -/
def shape : Shape Partial Manifest where
  name := "ExtractManifest"
  fields :=
    [field "entity" (fun _ ↦ Json.string) (·.entity) fun v p ↦ { p with entity := some v },
      field "base_url" (fun _ ↦ Json.string) (·.baseUrl) fun v p ↦ { p with baseUrl := some v },
      field "available" (fun _ ↦ Json.natural "u64") (·.available) fun v p ↦
        { p with available := some v },
      field "splits" (Json.listOf · readRecord) (·.splits) fun v p ↦ { p with splits := some v },
      field "started_at" (fun _ ↦ readInstant) (·.started) fun v p ↦ { p with started := some v },
      field "finished_at" (fun _ ↦ readInstant) (·.finished) fun v p ↦
        { p with finished := some v }]
  start := ⟨none, none, none, none, none, none⟩
  finish := Partial.finish

/-- Read a manifest from bytes, or say what is wrong with them. -/
def parse (bytes : Text.Bytes) : Except String Manifest :=
  (Json.readAll (shape.read Json.depthLimit) bytes).mapError (·.message bytes)

end Harvest.Manifest
