import Harvest.Http.Server
import Harvest.Text.Base64
import Harvest.Url.Form

/-!
# Requests on the wire

What a server sees of a request: the method, the whole URL, the headers that matter and the body.
-/

namespace Harvest.Http

/-- Credentials of the basic scheme. -/
def basicCredentials (username password : String) : String :=
  "Basic " ++ String.ofList (Text.Base64.encode (Text.bytesOf (username ++ ":" ++ password)))

/-- Credentials as they are sent. -/
def Authorization.credentials : Authorization → String
  | basic username password => basicCredentials username password
  | bearer token => "Bearer " ++ token

/-- The media type of forms. -/
def formType : MediaType := "application/x-www-form-urlencoded"

namespace Received

/-- The method of a request. -/
def method (r : Received) : String :=
  match r.query with
  | .get _ => "GET"
  | .post _ _ => "POST"

/-- The URL of a request. -/
def target (r : Received) : String :=
  match r.query with
  | .get request => String.ofList request.url.target
  | .post url _ => String.ofList url.target

/-- The headers of what is asked. -/
def queryHeaders : Query → List (String × String)
  | .get request =>
    [("accept", request.accept), ("authorization", request.authorization.credentials)]
  | .post _ _ => [("accept", json), ("content-type", formType)]

/-- The headers of a request. -/
def headers (r : Received) : List (String × String) :=
  queryHeaders r.query ++
    (r.proxyLogin.map fun l ↦
      ("proxy-authorization", basicCredentials l.username l.password)).toList

/-- The body of a request. -/
def body (r : Received) : Text.Bytes :=
  match r.query with
  | .get _ => []
  | .post _ fields => Text.encode (Url.formChars fields)

end Received

end Harvest.Http
