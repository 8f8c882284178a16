import Harvest.Command.Switch
import Harvest.Plan.Layout
import Harvest.Settings.Basic

/-!
# Command lines

The commands of the program, their switches, and what a command line asks for.
Design: `SPEC_FULL.md:232,274–277`.
-/

namespace Harvest.Command

/-! ## Switches of the commands -/

/-- Prints more log lines. -/
def debugSwitch : Switch := ⟨"debug", none, .nothing, "Enable debug logging"⟩

/-- The file that settings are read from. -/
def configSwitch : Switch :=
  ⟨"config", some 'c', .path,
    "Config file path (default: ./odline.toml or ~/.config/odline/config.toml)"⟩

/-- The switches of every level. -/
def commonSwitches : List Switch := [debugSwitch, configSwitch]

/-- The switches that choose what to read. -/
def querySwitches : List Switch :=
  [⟨"entity", some 'e', .text, "Entity set to query (overrides `extract.entity`)"⟩,
    ⟨"filter", none, .text, "`$filter` expression (overrides `extract.filter`)"⟩]

/-- The switches that divide the records. -/
def rangeSwitches : List Switch :=
  [⟨"skip", none, .number, "Records to skip from the start"⟩,
    ⟨"fetch", none, .number, "Records to fetch (0 = everything after the skipped ones)"⟩,
    ⟨"splits", none, .number, "Requested number of splits (0 = default)"⟩,
    ⟨"batch-size", some 'b', .number, "Requested page size (0 = default)"⟩]

/-- The commands. -/
inductive Kind where
  | plan
  | count
  | check
  | entities
  | fetch
  | config
deriving DecidableEq, Repr, Inhabited

namespace Kind

/-- All commands in the order of the help. -/
def all : List Kind := [plan, count, check, entities, fetch, config]

/-- The word for a command. -/
def name : Kind → String
  | plan => "plan"
  | count => "count"
  | check => "check"
  | entities => "entities"
  | fetch => "fetch"
  | config => "config"

/-- What a command does. -/
def about : Kind → String
  | plan => "Show how a record range would be split (no network)"
  | count => "Count the records matching the configured filter"
  | check => "Check credentials and base URL"
  | entities => "List the entity sets the service exposes"
  | fetch => "Extract an entity set to JSON page files"
  | config => "Show current configuration"

/-- The switches of a command. -/
def switches : Kind → List Switch
  | plan =>
    ⟨"available", some 'a', .number, "Number of records the service reports as available"⟩
      :: rangeSwitches
  | count => querySwitches
  | check =>
    querySwitches ++
      [⟨"probe", none, .nothing,
          "Also request one record of the entity with every query option applied"⟩,
        ⟨"metadata", none, .path, "Save the entity's `$metadata` document to this file"⟩]
  | entities =>
    [⟨"contains", some 'c', .text,
      "Only show entity sets whose name contains this text (case-insensitive)"⟩]
  | fetch =>
    querySwitches ++ ⟨"output", some 'o', .path, "Output directory"⟩ :: rangeSwitches ++
      [⟨"workers", some 'w', .number, "Number of parallel workers"⟩]
  | config => []

/-- The switches that a command cannot do without. -/
def required : Kind → List String
  | plan => ["available"]
  | _ => []

/-- The command that a word stands for. -/
def ofName? (word : String) : Option Kind := all.find? (·.name = word)

end Kind

/-- The word that asks for help. -/
def helpWord : String := "help"

/-- The first level of a command line. -/
def topLevel : Level := ⟨commonSwitches, Kind.all.map Kind.name ++ [helpWord], true⟩

/-- The level of a command. -/
def Kind.level (k : Kind) : Level := ⟨k.switches ++ commonSwitches, [], false⟩

/-! ## What is asked for -/

/-- The numbers that override those of the settings. -/
structure Range where
  skip : Option Nat
  fetch : Option Nat
  splits : Option Nat
  batchSize : Option Nat
deriving DecidableEq, Repr

/-- What to read, in the place of what is configured. -/
structure Selection where
  entity : Option String
  filter : Option String
deriving DecidableEq, Repr

/-- A request for a plan with the numbers of a range. -/
def Range.override (r : Range) (request : Plan.Request) : Plan.Request where
  available := request.available
  skip := r.skip.getD request.skip
  fetch := r.fetch.getD request.fetch
  splitCount := r.splits.getD request.splitCount
  batchSize := r.batchSize.getD request.batchSize

/-- Settings with the numbers of a range. -/
def Range.configure (r : Range) (s : Settings) : Settings :=
  { s with extract :=
    { s.extract with
      skip := r.skip.getD s.extract.skip
      fetch := r.fetch.getD s.extract.fetch
      splitCount := r.splits.getD s.extract.splitCount
      batchSize := r.batchSize.getD s.extract.batchSize } }

/-- Settings with a selection. -/
def Selection.configure (q : Selection) (s : Settings) : Settings :=
  { s with extract :=
    { s.extract with
      entity := q.entity.getD s.extract.entity
      filter := q.filter <|> s.extract.filter } }

/-- A command with its operands. -/
inductive Task where
  | plan (available : Nat) (range : Range)
  | count (selection : Selection)
  | check (selection : Selection) (probe : Bool) (metadata : Option String)
  | entities (contains : Option String)
  | fetch (selection : Selection) (output : Option String) (range : Range)
      (workers : Option Nat)
  | config
deriving DecidableEq, Repr

/-- A task, and how to go about it. -/
structure Job where
  task : Task
  debug : Bool
  config : Option String
deriving DecidableEq, Repr

/-- What help is asked about. -/
inductive Topic where
  | program
  | command (command : Kind)
  | help
deriving DecidableEq, Repr

/-- What a command line asks for. -/
inductive Asked where
  | job (job : Job)
  | help (topic : Topic)
  | version
  | misuse
deriving DecidableEq, Repr

/-- The number that a switch was given with. -/
def numberOf (given : Given) (name : String) : Option Nat :=
  (given.lookup name).bind fun word ↦ Text.readNatural word.toList

/-- The range that was given. -/
def rangeOf (given : Given) : Range where
  skip := numberOf given "skip"
  fetch := numberOf given "fetch"
  splits := numberOf given "splits"
  batchSize := numberOf given "batch-size"

/-- The selection that was given. -/
def selectionOf (given : Given) : Selection where
  entity := given.lookup "entity"
  filter := given.lookup "filter"

/-- The task of a command with the switches that were given. -/
def taskOf (given : Given) : Kind → Task
  | .plan => .plan ((numberOf given "available").getD 0) (rangeOf given)
  | .count => .count (selectionOf given)
  | .check => .check (selectionOf given) (given.lookup "probe").isSome (given.lookup "metadata")
  | .entities => .entities (given.lookup "contains")
  | .fetch =>
    .fetch (selectionOf given) (given.lookup "output") (rangeOf given) (numberOf given "workers")
  | .config => .config

/-- What is asked for where reading a level ended early. -/
def Ending.asked (topic : Topic) : Ending → Asked
  | misuse => .misuse
  | help => .help topic
  | version => .version

/-- Read the words behind a command; what is given there counts more than what is given before. -/
def readCommand (before : Given) (k : Kind) (words : List String) : Asked :=
  match k.level.read none [] words with
  | .error ending => ending.asked (.command k)
  | .ok (_, some _) => .misuse
  | .ok (given, none) =>
    if k.required.all fun name ↦ (given.lookup name).isSome then
      .job
        { task := taskOf given k
          debug := ((given ++ before).lookup debugSwitch.long).isSome
          config := (given ++ before).lookup configSwitch.long }
    else .misuse

/-- Read the words behind the word for help. -/
def readHelp : List String → Asked
  | [] => .help .program
  | [word] =>
    match Kind.ofName? word with
    | some k => .help (.command k)
    | none => if word = helpWord then .help .help else .misuse
  | _ => .misuse

/-- Read a command line. -/
def readArguments (words : List String) : Asked :=
  match topLevel.read none [] words with
  | .error ending => ending.asked .program
  | .ok (_, none) => .misuse
  | .ok (given, some (word, rest)) =>
    match Kind.ofName? word with
    | some k => readCommand given k rest
    | none => readHelp rest

end Harvest.Command
