import Harvest.Arithmetic
import Harvest.Json.Value
import Harvest.Settings.Basic

/-!
# Reading settings

Settings are read from a value that a JSON or TOML document stands for. Records are objects, or
lists with the fields in order; what is missing keeps its default and unknown fields are ignored.
Design: `SPEC_FULL.md:214–225`.
-/

namespace Harvest.Settings

open Json (Value)

/-- Where the formats of documents differ. -/
structure Dialect where
  /-- Whether a list may go on behind the last field of a record. -/
  surplus : Bool
  /-- Whether a value stands for nothing behind the name of a choice. -/
  isNothing : Value → Bool

/-- The rules of JSON documents. -/
def Dialect.json : Dialect where
  surplus := false
  isNothing
    | .null => true
    | _ => false

/-- The rules of TOML documents. -/
def Dialect.toml : Dialect where
  surplus := true
  isNothing
    | .object [] => true
    | .array [] => true
    | _ => false

/-- Reads a value, if it is one of the right kind. -/
abbrev Decoder (α : Type) := Value → Option α

/-- A field of a record: its name, and how it changes the record. -/
structure Field (σ : Type) where
  name : String
  assign : Value → σ → Option σ

/-- A field with a decoder. -/
def field {σ α : Type} (name : String) (decode : Decoder α) (put : α → σ → σ) : Field σ where
  name := name
  assign v s := (decode v).map (put · s)

/-- Assign the elements of a list to fields in order. -/
def assignInOrder {σ : Type} (surplus : Bool) : List (Field σ) → List Value → σ → Option σ
  | _, [], s => some s
  | [], _ :: _, s => if surplus then some s else none
  | field :: fields, v :: vs, s => (field.assign v s).bind (assignInOrder surplus fields vs)

/-- Read a record: the changes of its fields to the default. -/
def record {σ : Type} (d : Dialect) (fields : List (Field σ)) (start : σ) : Decoder σ
  | .object es =>
    fields.foldlM (fun s field ↦
      match ((Value.object es).all field.name).getLast? with
      | none => some s
      | some v => field.assign v s) start
  | .array vs => assignInOrder d.surplus fields vs start
  | _ => none

/-- Read a whole number up to a bound. -/
def natural (bound : Nat) : Decoder Nat
  | .number (.nat n) => if n ≤ bound then some n else none
  | _ => none

/-- A whole number of 64 bits. -/
def wide : Decoder Nat := natural (2 ^ 64 - 1)

/-- A whole number of 32 bits. -/
def narrow : Decoder Nat := natural (2 ^ 32 - 1)

/-- Read a text. -/
def text : Decoder String := Value.string?

/-- Read a value that may be missing. -/
def optional {α : Type} (decode : Decoder α) : Decoder (Option α)
  | .null => some none
  | v => (decode v).map some

/-- Read a list of texts. -/
def texts : Decoder (List String)
  | .array vs => vs.mapM text
  | _ => none

/-- Read one of several names; it may be the only name of an object that holds nothing. -/
def choice {α : Type} (d : Dialect) (names : List (String × α)) : Decoder α
  | .string s => names.lookup s
  | .object [(name, v)] => if d.isNothing v then names.lookup name else none
  | _ => none

/-! ## Environment variables -/

/-- Environment variables. -/
abbrev Environment := List (String × String)

/-- The name of the variable that a text refers to. -/
def reference? (cs : List Char) : Option (List Char) :=
  match cs with
  | '$' :: '\x7b' :: rest => if rest.getLast? = some '\x7d' then some rest.dropLast else none
  | _ => none

/-- The value of the variable that a text refers to, if it is set; a text that is no reference
stands for itself. -/
def expand (env : Environment) (s : String) : Option String :=
  match reference? s.toList with
  | some name => env.lookup (String.ofList name)
  | none => some s

/-- Read a text that may be missing and may refer to a variable. -/
def expanded (env : Environment) : Decoder (Option String) :=
  fun v ↦ (optional text v).map (·.bind (expand env))

/-! ## Sections -/

/-- The fields of a query. -/
def queryFields : List (Field Query) :=
  [field "entity" text fun v q ↦ { q with entity := v },
    field "associated_entity" (optional text) fun v q ↦ { q with associatedEntity := v },
    field "filter" (optional text) fun v q ↦ { q with filter := v },
    field "select" (optional text) fun v q ↦ { q with select := v },
    field "expand" (optional text) fun v q ↦ { q with expand := v },
    field "default_fields" texts fun v q ↦ { q with defaultFields := v }]

/-- Read a query. -/
def decodeQuery (d : Dialect) : Decoder Query := record d queryFields .empty

/-- Read limits of plans. -/
def decodeLimits (d : Dialect) : Decoder Plan.Limits :=
  record d
    [field "default_split_count" wide fun v l ↦ { l with defaultSplitCount := v },
      field "max_split_count" wide fun v l ↦ { l with maxSplitCount := v },
      field "default_batch_size" wide fun v l ↦ { l with defaultBatchSize := v },
      field "max_batch_size" wide fun v l ↦ { l with maxBatchSize := v }]
    .standard

/-- The names of the ways to authenticate. -/
def authTypes : List (String × AuthType) := [("basicAuth", .basic), ("oAuth2", .oauth)]

/-- The names of the ways to an assertion. -/
def assertionModes : List (String × AssertionMode) :=
  [("enterToken", .enter), ("createToken", .create)]

/-- Read a connection. -/
def Connection.decode (d : Dialect) (env : Environment) : Decoder Connection :=
  record d
    [field "base_url" text fun v c ↦ { c with baseUrl := v },
      field "auth_type" (choice d authTypes) fun v c ↦ { c with authType := v },
      field "username" (expanded env) fun v c ↦ { c with username := v },
      field "password" (expanded env) fun v c ↦ { c with password := v },
      field "token_url" (optional text) fun v c ↦ { c with tokenUrl := v },
      field "client_id" (expanded env) fun v c ↦ { c with clientId := v },
      field "company_id" (optional text) fun v c ↦ { c with companyId := v },
      field "user_id" (optional text) fun v c ↦ { c with userId := v },
      field "assertion_mode" (choice d assertionModes) fun v c ↦ { c with assertionMode := v },
      field "assertion_token" (expanded env) fun v c ↦ { c with assertionToken := v },
      field "private_key" (expanded env) fun v c ↦ { c with privateKey := v },
      field "expire_in_minutes" narrow fun v c ↦ { c with expireInMinutes := v },
      field "proxy_url" (optional text) fun v c ↦ { c with proxyUrl := v },
      field "proxy_username" (expanded env) fun v c ↦ { c with proxyUsername := v },
      field "proxy_password" (expanded env) fun v c ↦ { c with proxyPassword := v }]
    .unset

/-- Read what to extract. -/
def Extract.decode (d : Dialect) : Decoder Extract :=
  record d
    [field "entity" text fun v e ↦ { e with entity := v },
      field "associated_entity" (optional text) fun v e ↦ { e with associatedEntity := v },
      field "filter" (optional text) fun v e ↦ { e with filter := v },
      field "select" (optional text) fun v e ↦ { e with select := v },
      field "expand" (optional text) fun v e ↦ { e with expand := v },
      field "default_fields" texts fun v e ↦ { e with defaultFields := v },
      field "skip" wide fun v e ↦ { e with skip := v },
      field "fetch" wide fun v e ↦ { e with fetch := v },
      field "split_count" wide fun v e ↦ { e with splitCount := v },
      field "batch_size" wide fun v e ↦ { e with batchSize := v }]
    .unset

/-- Read retries. -/
def Retry.decode (d : Dialect) : Decoder Retry :=
  record d
    [field "initial_delay_secs" wide fun v r ↦ { r with initialDelay := v },
      field "max_delay_secs" wide fun v r ↦ { r with longestDelay := v },
      field "multiplier" narrow fun v r ↦ { r with multiplier := v },
      field "max_retries" narrow fun v r ↦ { r with retries := v }]
    .standard

/-- Read the place for the output. -/
def decodeOutputDir (d : Dialect) (start : String) : Decoder String :=
  record d [field "dir" text fun v _ ↦ v] start

/-- Read workers. -/
def Workers.decode (d : Dialect) (start : Workers) : Decoder Workers :=
  record d
    [field "default" wide fun v w ↦ { w with default := v },
      field "max" wide fun v w ↦ { w with max := v }]
    start

/-- Read settings. -/
def decode (d : Dialect) (env : Environment) (processors : Nat) : Decoder Settings :=
  let start := standard processors
  record d
    [field "connection" (Connection.decode d env) fun v s ↦ { s with connection := v },
      field "extract" (Extract.decode d) fun v s ↦ { s with extract := v },
      field "retry" (Retry.decode d) fun v s ↦ { s with retry := v },
      field "planner" (decodeLimits d) fun v s ↦ { s with planner := v },
      field "output" (decodeOutputDir d start.outputDir) fun v s ↦ { s with outputDir := v },
      field "workers" (Workers.decode d start.workers) fun v s ↦ { s with workers := v }]
    start

end Harvest.Settings
