import Harvest.Json.Record
import Harvest.Text.Blank
import Harvest.Transport.Call
import Harvest.Url.Edit

/-!
# Token exchange

An access token is handed out for an assertion of who asks. The assertion is given, or signed by an
identity provider beside the token endpoint.
Design: `SPEC_FULL.md:123–127`.
-/

namespace Harvest.Token

open Json (Shape)
open Transport (Outcome)

/-- What a signed assertion is about. Design: `SPEC_FULL.md:125–127`. -/
structure AssertionRequest where
  tokenUrl : Url
  clientId : String
  companyId : String
  userId : String
  privateKey : String
  expireInMinutes : Nat
deriving DecidableEq, Repr

/-- Where the assertion comes from. Design: `SPEC_FULL.md:123–124`. -/
inductive Assertion where
  | provided (assertion : String)
  | signed (request : AssertionRequest)
deriving DecidableEq, Repr

/-- What a token is asked for with. Design: `SPEC_FULL.md:123–124`. -/
structure Exchange where
  tokenUrl : Url
  clientId : String
  companyId : String
  assertion : Assertion
deriving DecidableEq, Repr

variable {σ : Type}

/-- Sends a form to a URL. -/
abbrev Poster (σ : Type) := Url → Http.Form → Act σ Outcome

/-- The body of an answer that grants the request. -/
def grantedBody : Outcome → Except Error String
  | .error e => .error (.unreachable e.message)
  | .ok response =>
    if response.isSuccess then .ok response.text
    else .error (.rejected response.status response.text)

/-- The form that asks for an assertion. -/
def AssertionRequest.form (r : AssertionRequest) : Http.Form :=
  [("client_id", r.clientId), ("user_id", r.userId), ("token_url", r.tokenUrl.text),
    ("private_key", r.privateKey)]

/-- The assertion that the body of an answer holds. -/
def readAssertion (body : String) : Except Error String :=
  match Text.nonBlank body with
  | some assertion => .ok assertion
  | none => .error (.malformed "empty assertion")

/-- Have an assertion signed. Design: `SPEC_FULL.md:125–127`. -/
def sign (post : Poster σ) (r : AssertionRequest) : Act σ (Except Error String) := do
  let provider := r.tokenUrl.identityProvider
  Act.report .debug .token
    s!"Requesting assertion from {provider.text} (requested validity {r.expireInMinutes}m)"
  return grantedBody (← post provider r.form) >>= readAssertion

/-- The assertion of an exchange; a given one may not be empty. -/
def assertionOf (post : Poster σ) : Assertion → Act σ (Except Error String)
  | .provided assertion =>
    pure (if assertion = "" then .error (.missingInput "assertion_token") else .ok assertion)
  | .signed request => sign post request

/-- The kind of exchange that token endpoints are asked for. -/
def grantType : String := "urn:ietf:params:oauth:grant-type:saml2-bearer"

/-- The form that asks for a token. -/
def Exchange.form (x : Exchange) (assertion : String) : Http.Form :=
  [("company_id", x.companyId), ("client_id", x.clientId), ("grant_type", grantType),
    ("assertion", assertion)]

/-- How a token document is read. -/
def tokenShape : Shape (Option String) String where
  name := "TokenResponse"
  fields :=
    [{ name := "access_token"
       read _ := (fun token _ ↦ some token) <$> Json.string
       isSet := Option.isSome
       mayMiss := false }]
  start := none
  finish := Json.require "access_token"

/-- The token that the body of an answer holds. -/
def readToken (body : String) : Except Error String :=
  let bytes := Text.bytesOf body
  match Json.readAll (tokenShape.read Json.depthLimit) bytes with
  | .error fault => .error (.malformed (fault.message bytes))
  | .ok token => if token = "" then .error (.malformed "empty access_token") else .ok token

/-- Ask for a token with an assertion. -/
def Exchange.redeem (x : Exchange) (post : Poster σ) (assertion : String) :
    Act σ (Except Error String) := do
  match grantedBody (← post x.tokenUrl (x.form assertion)) >>= readToken with
  | .error e => return .error e
  | .ok token =>
    Act.report .debug .token s!"Obtained access token from {x.tokenUrl.text}"
    return .ok token

/-- The first input of an exchange that is empty. -/
def Exchange.missingInput (x : Exchange) : Option String :=
  if x.clientId = "" then some "client_id"
  else if x.companyId = "" then some "company_id"
  else none

/-- Fetch a token. Design: `SPEC_FULL.md:123–124`. -/
def Exchange.fetch (x : Exchange) (post : Poster σ) : Act σ (Except Error String) := do
  match x.missingInput with
  | some field => return .error (.missingInput field)
  | none =>
    match ← assertionOf post x.assertion with
    | .error e => return .error e
    | .ok assertion => x.redeem post assertion

end Harvest.Token
