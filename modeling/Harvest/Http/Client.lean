import Harvest.Http.Server
import Harvest.Transport.Call

/-!
# HTTP clients

A client sends requests and forms to a server. What keeps a request from being sent, or its answer
from being read, becomes an error; a lost connection is worth another attempt, a broken answer and
a request that cannot be written are not.
Design: `SPEC_FULL.md:94–108`.
-/

namespace Harvest.Http

open Transport (Outcome)

/-- Where requests are routed through. -/
structure Proxy where
  url : Option String
  username : Option String
  password : Option String
deriving DecidableEq, Repr, Inhabited

namespace Proxy

/-- The URL of the proxy, unless it is empty. -/
def url? (p : Proxy) : Option String := p.url.filter (· ≠ "")

/-- The login at the proxy, where neither the name nor the password is empty. -/
def login? (p : Proxy) : Option Login := do
  return ⟨← p.username.filter (· ≠ ""), ← p.password.filter (· ≠ "")⟩

/-- Whether a text is a URL with a host, or why it is none. -/
private def hostUrl (text : String) : Except (Option Url.Error) Unit :=
  match Url.parse text with
  | .error e => .error (some e)
  | .ok u => if u.hasHost then .ok () else .error none

/-- Whether a text names a proxy. A URL without scheme or host is taken for a host. -/
def isUsable (text : String) : Bool :=
  match hostUrl text with
  | .ok () => true
  | .error none => (hostUrl ("http://" ++ text)).isOk
  | .error (some .noBase) => (hostUrl ("http://" ++ text)).isOk
  | .error (some _) => false

end Proxy

/-- What the client says of a request that it cannot write. -/
def builderError : String := "builder error"

/-- What the client says of a connection that is lost before an answer. -/
def sendingError : String := "error sending request"

/-- What the client says of an answer that ends too early. -/
def decodingError : String := "error decoding response body"

/-- Set up a client with the given proxy: what is reported of it, or why there is no client. -/
def connect (proxy : Proxy) : Except Transport.Error (List Log.Line) :=
  match proxy.url? with
  | none => .ok []
  | some url =>
    if Proxy.isUsable url then
      .ok [⟨.debug, .client, "Routing requests through proxy " ++ url⟩]
    else .error (.invalidUrl url builderError)

/-- Whether a text can be the value of a header: it holds no control character but tabs. -/
def isHeaderValue (text : String) : Bool :=
  text.toList.all fun c ↦ !Url.isControl c || c == '\t'

/-- The greatest length of a URL in a request. -/
def longestUrl : Nat := 65534

/-- Marks that names of hosts may hold and requests may not. -/
def unwritableMarks : List Char := ['"', '\x60', '\x7b', '\x7d']

/-- Whether a URL can be asked for: it is one of the web's, not too long, and its host holds no mark
that requests may not hold. -/
def isRequestable (u : Url) : Bool :=
  u.isWeb && u.chars.length ≤ longestUrl
    && u.authority.all fun a ↦ a.host.chars.all (!unwritableMarks.contains ·)

/-- Whether a request can be written. Basic credentials are encoded, so any text will do. -/
def Request.isWritable (r : Request) : Bool :=
  isRequestable r.url && isHeaderValue r.accept
    && match r.authorization with
      | .basic _ _ => true
      | .bearer token => isHeaderValue token

/-- What a reply is for the client. -/
def outcome : Option Reply → Outcome
  | none => .error (.request sendingError true)
  | some .drop => .error (.request sendingError true)
  | some (.cut _) => .error (.request decodingError false)
  | some (.answer status version body) =>
    .ok ⟨status, reasonPhrase status, version, if Server.hasNoBody status then [] else body⟩

/-- Ask a server what may not be something that can be written. -/
def exchange (proxy : Proxy) (writable : Bool) (query : Query) : Act Server Outcome :=
  if writable then Act.step fun server ↦
    let (reply, server) := server.exchange ⟨query, proxy.login?⟩
    (outcome reply, server)
  else pure (.error (.request builderError false))

/-- Read what stands at a URL. -/
def send (proxy : Proxy) (request : Request) : Act Server Outcome :=
  exchange proxy request.isWritable (.get request)

/-- Send a form. -/
def post (proxy : Proxy) (url : Url) (fields : Form) : Act Server Outcome := do
  Act.emit (.form url fields)
  exchange proxy (isRequestable url) (.post url fields)

end Harvest.Http
