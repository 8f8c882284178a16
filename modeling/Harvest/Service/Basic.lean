import Harvest.Endpoints
import Harvest.Service.Detail
import Harvest.Service.EntityList
import Harvest.Service.Error
import Harvest.Text.Number
import Harvest.Transport.Retry

/-!
# Services

The operations on one entity of a remote service. Each is one call with retries that has to be
granted, but for the check of the connection, which is a single call that accepts any status other
than 401 and 404.
Design: `SPEC_FULL.md:248–261`.
-/

namespace Harvest

/-- A service: its endpoints, what answers for it, and how it is called. -/
structure Service (σ : Type) where
  endpoints : Endpoints
  peer : Peer σ
  credentials : Transport.Credentials
  policy : Transport.Policy

namespace Service

variable {σ : Type}

/-- The result of an operation. -/
abbrev Answer (α : Type) := Except Error α

/-- The text of the base URL. -/
def baseText (s : Service σ) : String := s.endpoints.base.text

/-- Make a call with retries; any status that does not grant it is a failure. -/
def fetch (s : Service σ) (operation : String) (url : Url) (accept : Http.MediaType) :
    Act (World σ) (Answer Http.Response) := do
  match ← Transport.callWithRetry s.peer s.credentials s.policy url accept with
  | .error e => return .error (.transport e)
  | .ok response =>
    if response.isSuccess then return .ok response
    else return .error (.unexpectedStatus operation response.status (detail response))

/-- Make a call to an endpoint. -/
def fetchEndpoint (s : Service σ) (operation : String) (endpoint : Endpoint)
    (accept : Http.MediaType) : Act (World σ) (Answer Http.Response) := do
  Act.emit (.log (s.endpoints.report endpoint))
  s.fetch operation (s.endpoints.url endpoint) accept

/-- Check that the service is there and knows the credentials, with a single call.
Design: `SPEC_FULL.md:250–251`. -/
def checkConnection (s : Service σ) : Act (World σ) (Answer Http.Response) := do
  match ← Transport.call s.peer s.credentials s.endpoints.base Http.json with
  | .error e => return .error (.transport e)
  | .ok response =>
    if response.status = 401 then return .error .invalidCredentials
    else if response.status = 404 then return .error .notFound
    else
      let version := response.version.getD "unknown"
      Act.report .info .service
        s!"Connected to {s.baseText} (HTTP {response.status}, data service version {version})"
      return .ok response

/-- The number that the body of an answer consists of. -/
def readCount (body : String) : Answer Nat :=
  let text := Text.trimChars body.toList
  match Text.readNatural text with
  | some n => .ok n
  | none => .error (.invalidCount (String.ofList text))

/-- The number of records that match the filter. Design: `SPEC_FULL.md:252–253`. -/
def recordCount (s : Service σ) : Act (World σ) (Answer Nat) := do
  match ← s.fetchEndpoint "record count" .count Http.plainText with
  | .error e => return .error e
  | .ok response =>
    match readCount response.text with
    | .error e => return .error e
    | .ok n =>
      Act.report .info .service s!"{n} records available in {s.endpoints.query.entity}"
      return .ok n

/-- The names of the entity sets of the service. Design: `SPEC_FULL.md:254–257`. -/
def listEntities (s : Service σ) : Act (World σ) (Answer (List String)) := do
  match ← s.fetch "entity sets" s.endpoints.base Http.json with
  | .error e => return .error e
  | .ok response =>
    match parseEntityList response.body with
    | .error detail => return .error (.invalidEntityList detail)
    | .ok names =>
      Act.report .info .service s!"{names.length} entity sets at {s.baseText}"
      return .ok names

/-- The metadata document of the entity. -/
def metadata (s : Service σ) : Act (World σ) (Answer Http.Response) :=
  s.fetchEndpoint "metadata" .metadata Http.xml

/-- One record, with every query option applied. -/
def probe (s : Service σ) : Act (World σ) (Answer Http.Response) :=
  s.fetchEndpoint "probe" .tester Http.json

/-- One page of records. Design: `SPEC_FULL.md:258–259`. -/
def fetchPage (s : Service σ) (page : Plan.Page) : Act (World σ) (Answer Http.Response) :=
  s.fetchEndpoint "data page" (.data page) Http.json

end Service

end Harvest
