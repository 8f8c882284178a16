import Harvest.Http.Client
import Harvest.Plan.Layout
import Harvest.Query
import Harvest.Token.Exchange
import Harvest.Transport.Retry

/-!
# Settings

What a user configures: the connection, what to extract, retries, limits of plans, the place for
the output, and workers.
Design: `SPEC_FULL.md:214–224`.
-/

namespace Harvest.Settings

/-- How requests are authenticated. -/
inductive AuthType where
  | basic
  | oauth
deriving DecidableEq, Repr, Inhabited

/-- Whether the assertion is entered, or created from a private key. -/
inductive AssertionMode where
  | enter
  | create
deriving DecidableEq, Repr

/-- The connection to a service. Design: `SPEC_FULL.md:218–220`. -/
structure Connection where
  baseUrl : String
  authType : AuthType
  username : Option String
  password : Option String
  tokenUrl : Option String
  clientId : Option String
  companyId : Option String
  userId : Option String
  assertionMode : AssertionMode
  assertionToken : Option String
  privateKey : Option String
  expireInMinutes : Nat
  proxyUrl : Option String
  proxyUsername : Option String
  proxyPassword : Option String
deriving DecidableEq, Repr

/-- An unconfigured connection; assertions are valid for a day. -/
def Connection.unset : Connection where
  baseUrl := ""
  authType := .basic
  username := none
  password := none
  tokenUrl := none
  clientId := none
  companyId := none
  userId := none
  assertionMode := .create
  assertionToken := none
  privateKey := none
  expireInMinutes := 1440
  proxyUrl := none
  proxyUsername := none
  proxyPassword := none

/-- What to extract and how to divide it. Design: `SPEC_FULL.md:220–222`. -/
structure Extract where
  entity : String
  associatedEntity : Option String
  filter : Option String
  select : Option String
  expand : Option String
  defaultFields : List String
  skip : Nat
  fetch : Nat
  splitCount : Nat
  batchSize : Nat
deriving DecidableEq, Repr

/-- Nothing is configured to be extracted. -/
def Extract.unset : Extract := ⟨"", none, none, none, none, [], 0, 0, 0, 0⟩

/-- Retries, with delays in whole seconds. Design: `SPEC_FULL.md:222–223`. -/
structure Retry where
  initialDelay : Nat
  longestDelay : Nat
  multiplier : Nat
  retries : Nat
deriving DecidableEq, Repr

/-- The retries of the standard policy. -/
def Retry.standard : Retry where
  initialDelay := Transport.Policy.standard.initial.secs
  longestDelay := Transport.Policy.standard.longest.secs
  multiplier := Transport.Policy.standard.multiplier
  retries := Transport.Policy.standard.retries

/-- How many workers there are unless more or fewer are asked for, and how many at most.
Design: `SPEC_FULL.md:224`. -/
structure Workers where
  default : Nat
  max : Nat
deriving DecidableEq, Repr

/-- The workers of a machine with the given number of processors. -/
def Workers.standard (processors : Nat) : Workers := ⟨min processors 8, 16⟩

end Settings

/-- All that a user configures. Design: `SPEC_FULL.md:214–224`. -/
structure Settings where
  connection : Settings.Connection
  extract : Settings.Extract
  retry : Settings.Retry
  planner : Plan.Limits
  /-- The directory that entities are extracted into. -/
  outputDir : String
  workers : Settings.Workers
deriving DecidableEq, Repr

namespace Settings

/-- Settings where nothing is configured. -/
def standard (processors : Nat) : Settings where
  connection := .unset
  extract := .unset
  retry := .standard
  planner := .standard
  outputDir := "./data"
  workers := .standard processors

/-- An optional text without the blanks around it; empty where there is none. -/
def trimmed (value : Option String) : String := (value.map Text.trim).getD ""

namespace Connection

/-- The proxy of a connection. -/
def proxy (c : Connection) : Http.Proxy := ⟨c.proxyUrl, c.proxyUsername, c.proxyPassword⟩

/-- The assertion of a connection. -/
def assertion (c : Connection) (tokenUrl : Url) : Token.Assertion :=
  match c.assertionMode with
  | .enter => .provided (trimmed c.assertionToken)
  | .create => .signed
    { tokenUrl, clientId := trimmed c.clientId, companyId := trimmed c.companyId,
      userId := trimmed c.userId, privateKey := trimmed c.privateKey,
      expireInMinutes := c.expireInMinutes }

/-- The credentials of a connection, and how tokens are fetched where they need some. -/
def credentials (c : Connection) :
    Except Transport.Error (Transport.Credentials × Option Token.Exchange) :=
  match c.authType with
  | .basic => .ok (.basic (trimmed c.username) (c.password.getD ""), none)
  | .oauth => do
    let tokenUrl ← Transport.parseUrl (trimmed c.tokenUrl)
    return (.bearer, some
      { tokenUrl, clientId := trimmed c.clientId, companyId := trimmed c.companyId,
        assertion := c.assertion tokenUrl })

/-- What hands out tokens where none are needed. -/
def noTokens : Act Http.Server (Except Token.Error String) :=
  pure (.error (.missingInput "client_id"))

/-- The peer that a client of the connection is. -/
def peer (c : Connection) (exchange : Option Token.Exchange) : Peer Http.Server where
  send := Http.send c.proxy
  fetchToken := (exchange.map (·.fetch (Http.post c.proxy))).getD noTokens

/-- Set up the client of a connection and its credentials: what is reported of it, and the
credentials with the peer. -/
def connect (c : Connection) :
    List Log.Line × Except Transport.Error (Transport.Credentials × Peer Http.Server) :=
  match Http.connect c.proxy with
  | .error e => ([], .error e)
  | .ok lines =>
    (lines, c.credentials.map fun (credentials, exchange) ↦ (credentials, c.peer exchange))

end Connection

/-- The query of what to extract. -/
def Extract.query (e : Extract) : Query where
  entity := Text.trim e.entity
  associatedEntity := e.associatedEntity
  filter := e.filter
  select := e.select
  expand := e.expand
  defaultFields := e.defaultFields

/-- The request for a plan of what to extract. -/
def Extract.planRequest (e : Extract) (available : Nat) : Plan.Request where
  available := available
  fetch := e.fetch
  skip := e.skip
  splitCount := e.splitCount
  batchSize := e.batchSize

/-- The policy of configured retries. -/
def Retry.policy (r : Retry) : Transport.Policy where
  initial := .ofSecs r.initialDelay
  longest := .ofSecs r.longestDelay
  multiplier := r.multiplier
  retries := r.retries

/-- The number of workers for a request; at least one, and no more than configured. -/
def Workers.resolve (w : Workers) (requested : Option Nat) : Nat :=
  Nat.min (Nat.max (requested.getD w.default) 1) (Nat.max w.max 1)

end Settings

end Harvest
