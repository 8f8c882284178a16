import Harvest.Command.Arguments
import Harvest.Command.Step
import Harvest.Settings.Validate
import Harvest.Text.Case

/-!
# Looking at a service

The commands that count records, check a connection and list entities.
Design: `SPEC_FULL.md:274–277`.
-/

namespace Harvest.Command

/-- Fail where settings break a rule. -/
def validate (failures : List Settings.Failure) : Step Unit :=
  if failures = [] then pure () else throw (.plain (Settings.failuresMessage failures))

/-- Set up the service of settings that have been checked. -/
def openService (settings : Settings) : Step (Service Http.Server) := do
  let (lines, connected) := settings.connection.connect
  act (Act.reportAll lines)
  let (credentials, peer) ←
    orFail (.because "Failed to set up the HTTP client" ∘ .ofTransport) connected
  let endpoints ←
    orFail (.because "Invalid base URL" ∘ .ofTransport)
      (Endpoints.make settings.connection.baseUrl settings.extract.query)
  return { endpoints, peer, credentials, policy := settings.retry.policy }

/-- Check all settings, and set up the service. -/
def connect (settings : Settings) : Step (Service Http.Server) := do
  validate settings.failures
  openService settings

/-- Check the settings of the connection, and set up the service. -/
def connectOnly (settings : Settings) : Step (Service Http.Server) := do
  validate settings.connectionFailures
  openService settings

/-- Count the records that match the filter. Design: `SPEC_FULL.md:274–275`. -/
def count (settings : Settings) (selection : Selection) : Step Unit := do
  let settings := selection.configure settings
  let service ← connect settings
  let available ← inWorld service.recordCount
  tellTable (summary "Count"
    [("Entity", settings.extract.entity), ("Filter", orDash settings.extract.filter),
      ("Available records", Text.grouped available)])

/-- Fetch one record: the row about it. -/
def probe (service : Service Http.Server) : Step (List (String × String)) := do
  let response ← inWorld service.probe
  return [("Probe", s!"HTTP {response.status}, {ByteSize.text response.body.length}")]

/-- Save the metadata document: the row about it. -/
def saveMetadata (service : Service Http.Server) (path : String) :
    Step (List (String × String)) := do
  let response ← inWorld service.metadata
  let failure : Service.Error → Failure
    | .io detail => .because ("Failed to write metadata to " ++ path) (.plain detail)
    | e => .ofService e
  actOrFail failure (Extraction.onDisk (·.write path response.body))
  return [("Metadata", path)]

/-- Check the connection, with a probe and the metadata where they are asked for.
Design: `SPEC_FULL.md:274–275`. -/
def check (settings : Settings) (selection : Selection) (probed : Bool)
    (metadata : Option String) : Step Unit := do
  let settings := selection.configure settings
  let service ←
    if probed || metadata.isSome then connect settings else connectOnly settings
  let response ← inWorld service.checkConnection
  let rows :=
    [("Base URL", service.baseText), ("HTTP status", toString response.status),
      ("Service version", response.version.getD "unknown")]
  let probeRows ← if probed then probe service else pure []
  let metadataRows ← match metadata with
    | some path => saveMetadata service path
    | none => pure []
  tellTable (summary "Connection" (rows ++ probeRows ++ metadataRows))

/-- Whether a name holds a text, whatever the case of its letters. -/
def nameHolds (text name : String) : Bool :=
  Text.holds (Text.lower text).toList (Text.lower name).toList

/-- The table of entities. -/
def entityTable (names : List String) : Table :=
  .withHeadings ["#", "Entity set"]
    (names.zipIdx.map fun (name, n) ↦ [.left (toString (n + 1)), .left name])

/-- List the entities whose names hold a text. Design: `SPEC_FULL.md:275–276`. -/
def entities (settings : Settings) (contains : Option String) : Step Unit := do
  let service ← connectOnly settings
  let names ← inWorld service.listEntities
  let names := match contains with
    | some text => names.filter (nameHolds text)
    | none => names
  act (Act.emit (.print .output ((entityTable names).text ++ "\n")))
  tell s!"{names.length} entity sets\n"

end Harvest.Command
