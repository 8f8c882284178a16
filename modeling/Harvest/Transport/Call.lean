import Harvest.Token.Cache

/-!
# Authenticated calls

One call with credentials. Where a bearer token is refused (status 403) it is replaced once and the
request is sent once more; the second answer is final.
Design: `SPEC_FULL.md:94–108`.
-/

namespace Harvest.Transport

/-- How calls are authenticated. Design: `SPEC_FULL.md:101–104`. -/
inductive Credentials where
  | basic (username password : String)
  | bearer
deriving DecidableEq, Repr, Inhabited

/-- The status of a request that its credentials do not allow. Design: `SPEC_FULL.md:104`. -/
def forbidden : Nat := 403

/-- What a call comes to. -/
abbrev Outcome := Except Error Http.Response

variable {σ : Type}

/-- Send one request. -/
def send (peer : Peer σ) (request : Http.Request) : Act (World σ) Outcome := do
  Act.emit (.request request)
  Token.onPeer (peer.send request)

/-- Send one request with a bearer token. Design: `SPEC_FULL.md:103–106`. -/
def sendWithToken (peer : Peer σ) (url : Url) (accept : Http.MediaType) (refresh : Bool) :
    Act (World σ) Outcome := do
  match ← Token.get peer refresh with
  | .error e => return .error (.auth e)
  | .ok token => send peer ⟨url, accept, .bearer token⟩

/-- Make one call. Design: `SPEC_FULL.md:95–106`. -/
def call (peer : Peer σ) (credentials : Credentials) (url : Url) (accept : Http.MediaType) :
    Act (World σ) Outcome := do
  match credentials with
  | .basic username password => send peer ⟨url, accept, .basic username password⟩
  | .bearer =>
    match ← sendWithToken peer url accept false with
    | .error e => return .error e
    | .ok response =>
      if response.status = forbidden then
        Act.report .info .transport "Access token rejected (HTTP 403), refreshing"
        sendWithToken peer url accept true
      else return .ok response

end Harvest.Transport
